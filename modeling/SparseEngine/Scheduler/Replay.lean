import SparseEngine.Scheduler.Schedule

/-! A preempted sequence prefills its prompt again and feeds its accepted tokens through decode
before it samples the next one. -/

namespace SparseEngine

open List Sequence Option

inductive Place
  | waiting
  /-- In the prefill batch last returned by `schedule`. -/
  | batch
  | decoding
  | done
deriving DecidableEq, Repr

structure SequenceRun where
  seq : Sequence
  place : Place
  origin : Nat := 0
  fed : List (Int × Int) := []
deriving DecidableEq

inductive SequenceOp
  /-- The prefix cache hit of a fresh prompt is looked up. -/
  | refresh (hitLen : Nat) (hit : PrefixCacheHit)
  | schedule (chunk : Int)
  /-- The prefill step ran and was post-processed with a sampled token. -/
  | prefilled (token : Int)
  /-- A decode step ran and was post-processed with a sampled token. -/
  | decoded (token : Int)
  | preempt
  /-- Another sequence was preempted. -/
  | checkpoint

namespace SequenceRun

def placeAfter (seq : Sequence) : Place :=
  if seq.status = .finished then .done
  else if seq.numPrefilledTokens < seq.numPromptTokens then .waiting
  else .decoding

def step (eosTokenIds : List Int) (s : SequenceRun) : SequenceOp → Option SequenceRun
  | .refresh hitLen hit =>
    if s.place = .waiting ∧ s.seq.numPrefilledTokens = 0 ∧ s.seq.numCompletionTokens = 0 then
      some { s with seq := { s.seq with prefixCacheHitLen := hitLen, prefixCacheHit := hit } }
    else none
  | .schedule chunk =>
    if s.place = .waiting ∧ 0 < chunk ∧ chunk ≤ s.seq.prefillStageRemaining ∧
        chunk ≤ s.seq.remainingPrefillTokens then
      let seq := s.seq.scheduled chunk
      some { s with
        seq := seq
        place := .batch
        origin := if s.seq.numPrefilledTokens = 0 then seq.numPrefilledTokens.toNat else s.origin }
    else none
  | .prefilled token =>
    if s.place = .batch then
      let seq := s.seq.prefilled eosTokenIds token
      some { s with seq := seq, place := placeAfter seq, fed := s.fed ++ s.seq.prefillInputs }
    else none
  | .decoded token =>
    if s.place = .decoding then
      match s.seq.decodeInputToken with
      | .error _ => none
      | .ok input =>
        let seq := s.seq.decoded eosTokenIds token
        some { s with
          seq := seq
          place := placeAfter seq
          fed := s.fed ++ [(input, s.seq.decodeInputPosition)] }
    else none
  | .preempt =>
    if s.place = .decoding then some { seq := s.seq.preempted, place := .waiting } else none
  | .checkpoint =>
    if s.place = .decoding then some { s with seq := s.seq.checkpointProgress } else none

def run (eosTokenIds : List Int) (s : SequenceRun) : List SequenceOp → Option SequenceRun
  | [] => some s
  | op :: ops => do
    let s' ← step eosTokenIds s op
    run eosTokenIds s' ops

def next (s : SequenceRun) : Nat :=
  match s.place with
  | .waiting | .batch => s.seq.numPrefilledTokens.toNat
  | .decoding | .done =>
    match s.seq.recomputeReplayCursor with
    | some cursor => (s.seq.numPromptTokens + cursor).toNat
    | none => (s.seq.numTokens - 1).toNat

end SequenceRun

namespace Sequence

/-- A sequence as the client submits it. -/
structure Submitted (seq : Sequence) : Prop where
  prompt_ids : seq.promptTokenIds = some seq.tokenIds
  last_token : seq.lastToken = seq.tokenIds.getLast?
  num_tokens : seq.numTokens = seq.tokenIds.length
  num_prompt : seq.numPromptTokens = seq.tokenIds.length
  no_replay : seq.recomputeReplayCursor = none
  reused_nonneg : 0 ≤ seq.numPrefilledTokens
  reused_le : seq.numPrefilledTokens ≤ seq.numPromptTokens
  reused_hit : seq.prefixCacheHitLen = seq.numPrefilledTokens

/-- The counters are those of the tokens. -/
structure History (seq : Sequence) : Prop where
  length : (seq.tokenIds.length : Int) = seq.numTokens
  prompt_nonneg : 0 ≤ seq.numPromptTokens
  prompt_le : seq.numPromptTokens ≤ seq.numTokens
  prompt_ids : seq.promptTokenIds = some (seq.tokenIds.take seq.numPromptTokens.toNat)
  last_token : seq.lastToken = seq.tokenIds.getLast?

structure SameHistory (seq seq' : Sequence) : Prop where
  tokens : seq'.tokenIds = seq.tokenIds
  prompt_ids : seq'.promptTokenIds = seq.promptTokenIds
  last_token : seq'.lastToken = seq.lastToken
  num_tokens : seq'.numTokens = seq.numTokens
  num_prompt : seq'.numPromptTokens = seq.numPromptTokens
  delta : seq'.multimodalPositionDelta = seq.multimodalPositionDelta

variable {seq seq' : Sequence}

theorem History.congr (h : seq.History) (same : SameHistory seq seq') : seq'.History where
  length := by rw [same.tokens, same.num_tokens, h.length]
  prompt_nonneg := same.num_prompt ▸ h.prompt_nonneg
  prompt_le := by rw [same.num_prompt, same.num_tokens]; exact h.prompt_le
  prompt_ids := by rw [same.prompt_ids, same.tokens, same.num_prompt, h.prompt_ids]
  last_token := by rw [same.last_token, same.tokens, h.last_token]

theorem History.append (h : seq.History) (token : Int) : (seq.appendToken token).History where
  length := by simp [appendToken, h.length]
  prompt_nonneg := h.prompt_nonneg
  prompt_le := by
    have le := h.prompt_le
    simp only [appendToken]
    omega
  prompt_ids := by
    have le := h.prompt_le
    have length := h.length
    simp only [appendToken, h.prompt_ids]
    rw [take_append_of_le_length (by omega)]
  last_token := by simp [appendToken]

theorem Submitted.history (h : seq.Submitted) : seq.History where
  length := h.num_tokens.symm
  prompt_nonneg := by rw [h.num_prompt]; exact Int.natCast_nonneg _
  prompt_le := by rw [h.num_prompt, h.num_tokens]
  prompt_ids := by rw [h.prompt_ids, h.num_prompt]; simp
  last_token := h.last_token

def inputAt (seq : Sequence) (i : Nat) : Int × Int :=
  (seq.tokenIds[i]?.getD 0, i + if (i : Int) < seq.numPromptTokens then 0
    else seq.multimodalPositionDelta)

theorem inputAt_congr (same : SameHistory seq seq') : seq'.inputAt = seq.inputAt := by
  funext i
  rw [inputAt, inputAt, same.tokens, same.num_prompt, same.delta]

theorem inputAt_append {token : Int} {i : Nat} (old : i < seq.tokenIds.length) :
    (seq.appendToken token).inputAt i = seq.inputAt i := by
  simp only [inputAt, appendToken, getElem?_append_left old]
  rfl

theorem pySlice_eq {tokens : List Int} {start chunk : Nat} (fits : start + chunk ≤ tokens.length) :
    pySlice tokens start (start + chunk) = (tokens.drop start).take chunk := by
  have start_index : sliceIndex tokens.length start = start := by
    simp only [sliceIndex]
    split <;> omega
  have stop_index : sliceIndex tokens.length (start + chunk) = start + chunk := by
    simp only [sliceIndex]
    split <;> omega
  rw [pySlice, start_index, stop_index, drop_take, Nat.add_sub_cancel_left]

theorem prefillChunkTokens_eq (h : seq.History) {start chunk : Nat}
    (at_start : seq.numPrefilledTokens = start) (chunk_size : seq.currentChunkSize = some (chunk : Int))
    (fits : (start + chunk : Int) ≤ seq.numPromptTokens) :
    seq.prefillChunkTokens = (seq.tokenIds.drop start).take chunk := by
  have length := h.length
  have prompt_le := h.prompt_le
  rw [prefillChunkTokens, chunk_size, at_start, getD_some]
  split
  · exact pySlice_eq (by omega)
  · have at_zero : start = 0 := by omega
    rw [at_zero, drop_zero, take_of_length_le (by omega)]

theorem prefillInputs_eq (h : seq.History) {start chunk : Nat}
    (at_start : seq.numPrefilledTokens = start) (chunk_size : seq.currentChunkSize = some (chunk : Int))
    (fits : (start + chunk : Int) ≤ seq.numPromptTokens) :
    seq.prefillInputs = (range' start chunk).map seq.inputAt := by
  have length := h.length
  have prompt_le := h.prompt_le
  rw [prefillInputs, prefillChunkTokens_eq h at_start chunk_size fits, at_start]
  refine ext_getElem (by simp; omega) fun i left right => ?_
  have inside : i < chunk := by simpa using right
  have in_prompt : ((start + i : Nat) : Int) < seq.numPromptTokens := by omega
  have in_history : start + i < seq.tokenIds.length := by omega
  have shown : seq.tokenIds[start + i]? = some seq.tokenIds[start + i] :=
    getElem?_eq_getElem in_history
  simp only [getElem_map, getElem_zipIdx, getElem_take, getElem_drop,
    getElem_range', inputAt, one_mul, shown, getD_some, if_pos in_prompt]
  simp

end Sequence

namespace SequenceRun

/-- What holds of a sequence before its prompt is complete. -/
structure Prefilling (s : SequenceRun) : Prop where
  prefilled_nonneg : 0 ≤ s.seq.numPrefilledTokens
  prefilled_le : s.seq.numPrefilledTokens ≤ s.seq.numPromptTokens
  hit_nonneg : 0 ≤ s.seq.prefixCacheHitLen
  fresh : s.seq.recomputeReplayCursor = none → s.seq.numCompletionTokens = 0
  replay : ∀ cursor, s.seq.recomputeReplayCursor = some cursor →
    cursor = 0 ∧ 1 ≤ s.seq.numCompletionTokens ∧ s.seq.prefixCacheHitLen = 0 ∧ s.origin = 0

def HasChunk (s : SequenceRun) : Prop :=
  ∃ chunk : Nat, s.seq.currentChunkSize = some (chunk : Int) ∧ 0 < chunk ∧
    s.seq.numPrefilledTokens + chunk ≤ s.seq.numPromptTokens

/-- What holds of a sequence after its prompt. -/
structure Decoding (s : SequenceRun) : Prop where
  prefilled : s.seq.numPrefilledTokens = s.seq.numPromptTokens
  completion : 1 ≤ s.seq.numCompletionTokens
  replay : ∀ cursor, s.seq.recomputeReplayCursor = some cursor →
    0 ≤ cursor ∧ cursor < s.seq.numCompletionTokens - 1
  running : s.seq.status ≠ .finished

def Placed (s : SequenceRun) : Prop :=
  match s.place with
  | .waiting => s.Prefilling
  | .batch => s.Prefilling ∧ s.HasChunk
  | .decoding => s.Decoding
  | .done => s.seq.recomputeReplayCursor = none ∧ 1 ≤ s.seq.numCompletionTokens

/-- The forwards were given the positions from the origin on, in order. -/
structure Inv (s : SequenceRun) : Prop where
  history : s.seq.History
  placed : s.Placed
  origin_le : s.origin ≤ s.next
  fed : s.fed = (range' s.origin (s.next - s.origin)).map s.seq.inputAt

variable {more : Nat}

theorem fed_append {seq seq' : Sequence} {fed : List (Int × Int)} {origin next : Nat}
    (below : origin ≤ next) (log : fed = (range' origin (next - origin)).map seq.inputAt)
    (same : ∀ i < next + more, seq'.inputAt i = seq.inputAt i) :
    fed ++ (range' next more).map seq.inputAt =
      (range' origin (next + more - origin)).map seq'.inputAt := by
  have split : range' origin (next + more - origin) =
      range' origin (next - origin) ++ range' next more := by
    have join := range'_append_1 (s := origin) (m := next - origin) (n := more)
    rw [Nat.add_sub_cancel' below] at join
    rw [join]
    congr 1
    omega
  rw [split, map_append, log]
  congr 1
  · refine map_congr_left fun i member => (same i ?_).symm
    have bound := mem_range'_1.mp member
    omega
  · refine map_congr_left fun i member => (same i ?_).symm
    have bound := mem_range'_1.mp member
    omega

def start (seq : Sequence) : SequenceRun where
  seq := seq
  place := .waiting
  origin := seq.numPrefilledTokens.toNat

theorem start_inv {seq : Sequence} (submitted : seq.Submitted) : (start seq).Inv where
  history := submitted.history
  placed := by
    refine ⟨submitted.reused_nonneg, submitted.reused_le, ?_, fun _ => ?_, fun cursor here => ?_⟩
    · exact submitted.reused_hit ▸ submitted.reused_nonneg
    · simp [numCompletionTokens, start, submitted.num_tokens, submitted.num_prompt]
    · cases submitted.no_replay.symm.trans here
  origin_le := le_refl _
  fed := by simp [start, next]

variable {eosTokenIds : List Int} {s s' : SequenceRun}

theorem Inv.move (h : s.Inv) (same : SameHistory s.seq s'.seq) (placed : s'.Placed)
    (origin : s'.origin = s.origin) (fed : s'.fed = s.fed) (next : s'.next = s.next) : s'.Inv where
  history := h.history.congr same
  placed := placed
  origin_le := by rw [origin, next]; exact h.origin_le
  fed := by rw [fed, origin, next, inputAt_congr same]; exact h.fed

theorem Inv.feed (h : s.Inv) (history : s'.seq.History) (placed : s'.Placed)
    (same : ∀ i < s.next + more, s'.seq.inputAt i = s.seq.inputAt i) (origin : s'.origin = s.origin)
    (fed : s'.fed = s.fed ++ (range' s.next more).map s.seq.inputAt)
    (next : s'.next = s.next + more) : s'.Inv where
  history := history
  placed := placed
  origin_le := by
    have below := h.origin_le
    omega
  fed := by rw [fed, origin, next]; exact fed_append h.origin_le h.fed same

theorem refresh_inv (h : s.Inv) (waiting : s.place = .waiting)
    (fresh : s.seq.numCompletionTokens = 0) (hitLen : Nat) (hit : PrefixCacheHit) :
    Inv { s with seq := { s.seq with prefixCacheHitLen := hitLen, prefixCacheHit := hit } } := by
  have prefilling : s.Prefilling := by simpa [Placed, waiting] using h.placed
  refine h.move ⟨rfl, rfl, rfl, rfl, rfl, rfl⟩ ?_ rfl rfl (by simp [next, waiting])
  simp only [Placed, waiting]
  refine ⟨prefilling.prefilled_nonneg, prefilling.prefilled_le, Int.natCast_nonneg _,
    prefilling.fresh, fun cursor here => ?_⟩
  have accepted := (prefilling.replay cursor here).2.1
  omega

theorem schedule_inv (h : s.Inv) (waiting : s.place = .waiting) {chunk : Int} (positive : 0 < chunk)
    (remaining : chunk ≤ s.seq.remainingPrefillTokens) :
    Inv { s with
      seq := s.seq.scheduled chunk
      place := .batch
      origin := if s.seq.numPrefilledTokens = 0 then
        (s.seq.scheduled chunk).numPrefilledTokens.toNat else s.origin } := by
  have prefilling : s.Prefilling := by simpa [Placed, waiting] using h.placed
  have hit_nonneg := prefilling.hit_nonneg
  have prefilled_nonneg := prefilling.prefilled_nonneg
  have at_waiting : s.next = s.seq.numPrefilledTokens.toNat := by simp [next, waiting]
  obtain ⟨size, rfl⟩ := Int.eq_ofNat_of_zero_le (le_of_lt positive)
  simp only [remainingPrefillTokens] at remaining
  by_cases adopts : s.seq.numPrefilledTokens = 0 ∧ 0 < s.seq.prefixCacheHitLen
  · -- nothing was fed yet, and the log starts after the hit
    obtain ⟨unstarted, hit⟩ := adopts
    have scheduled : s.seq.scheduled size = { s.seq with
        numPrefilledTokens := s.seq.prefixCacheHitLen
        currentChunkSize := some (size : Int)
        status := .running } := by
      simp [Sequence.scheduled, adoptHit, setChunk, unstarted, hit]
    have nothing : s.fed = [] := by simp [h.fed, at_waiting, unstarted]
    have no_replay : s.seq.recomputeReplayCursor = none := by
      cases here : s.seq.recomputeReplayCursor with
      | none => rfl
      | some cursor =>
        have no_hit := (prefilling.replay cursor here).2.2.1
        omega
    rw [scheduled, if_pos unstarted]
    refine ⟨h.history.congr ⟨rfl, rfl, rfl, rfl, rfl, rfl⟩, ?_, le_refl _, by simp [next, nothing]⟩
    refine ⟨⟨hit_nonneg, ?_, hit_nonneg, prefilling.fresh, fun cursor here => ?_⟩, size, rfl, ?_, ?_⟩
    · dsimp only
      omega
    · cases no_replay.symm.trans here
    · omega
    · dsimp only
      omega
  · have scheduled : s.seq.scheduled size = { s.seq with
        currentChunkSize := some (size : Int)
        status := .running } := by
      by_cases unstarted : s.seq.numPrefilledTokens = 0
      · have no_hit : ¬ 0 < s.seq.prefixCacheHitLen := fun hit => adopts ⟨unstarted, hit⟩
        simp [Sequence.scheduled, adoptHit, setChunk, unstarted, no_hit]
      · simp [Sequence.scheduled, setChunk, unstarted]
    have origin : (if s.seq.numPrefilledTokens = 0 then
        (s.seq.scheduled size).numPrefilledTokens.toNat else s.origin) = s.origin := by
      split
      · have below := h.origin_le
        rw [at_waiting] at below
        simp only [scheduled]
        omega
      · rfl
    rw [origin, scheduled]
    refine h.move ⟨rfl, rfl, rfl, rfl, rfl, rfl⟩ ?_ rfl rfl (by simp [next, waiting])
    refine ⟨⟨prefilled_nonneg, prefilling.prefilled_le, hit_nonneg, prefilling.fresh,
      prefilling.replay⟩, size, rfl, ?_, ?_⟩
    · omega
    · dsimp only
      omega

theorem checkpoint_inv (h : s.Inv) (decoding : s.place = .decoding) :
    Inv { s with seq := s.seq.checkpointProgress } := by
  have placed : s.Decoding := by simpa [Placed, decoding] using h.placed
  refine h.move ⟨rfl, rfl, rfl, rfl, rfl, rfl⟩ ?_ rfl rfl (by simp [next, decoding]; rfl)
  simp only [Placed, decoding]
  exact { placed with }

theorem preempted_eq (accepted : 1 ≤ s.seq.numCompletionTokens) :
    s.seq.preempted = s.seq.startRecomputeReplay := by
  simp only [Sequence.preempted]
  rw [if_pos (by omega)]
  rfl

theorem preempt_inv (h : s.Inv) (decoding : s.place = .decoding) :
    Inv { seq := s.seq.preempted, place := .waiting } := by
  have placed : s.Decoding := by simpa [Placed, decoding] using h.placed
  rw [preempted_eq placed.completion]
  refine ⟨h.history.congr ⟨rfl, rfl, rfl, rfl, rfl, rfl⟩, ?_, Nat.zero_le _, rfl⟩
  refine ⟨le_refl _, h.history.prompt_nonneg, le_refl _, nofun, fun cursor here => ?_⟩
  obtain rfl := Option.some.inj here
  exact ⟨rfl, placed.completion, rfl, rfl⟩

theorem published_inv (h : s.Inv) (seq : Sequence) (token : Int)
    (same : SameHistory s.seq seq) (caught_up : (s.next + more : Int) = s.seq.numTokens)
    (prefilled : seq.numPrefilledTokens = seq.numPromptTokens)
    (no_replay : seq.recomputeReplayCursor = none) (running : seq.status ≠ .finished)
    {fed : List (Int × Int)} (log : fed = s.fed ++ (range' s.next more).map s.seq.inputAt) :
    Inv { s with
      seq := seq.published eosTokenIds token
      place := placeAfter (seq.published eosTokenIds token)
      fed := fed } := by
  have history := (h.history.congr same).append token
  have length := h.history.length
  have le := h.history.prompt_le
  have inputs : ∀ i < s.next + more, (seq.appendToken token).inputAt i = s.seq.inputAt i := by
    intro i bound
    rw [inputAt_append (by rw [same.tokens]; omega), inputAt_congr same]
  have accepted : 1 ≤ (seq.appendToken token).numCompletionTokens := by
    simp only [numCompletionTokens, appendToken, same.num_tokens, same.num_prompt]
    omega
  have last : ((seq.appendToken token).numTokens - 1).toNat = s.next + more := by
    simp only [appendToken, same.num_tokens]
    omega
  by_cases stops : (seq.appendToken token).stopsAt eosTokenIds token = true
  · have published : seq.published eosTokenIds token =
        { seq.appendToken token with status := .finished } := by
      simp [Sequence.published, stops]
    rw [published]
    refine h.feed (history.congr ⟨rfl, rfl, rfl, rfl, rfl, rfl⟩) ?_ inputs rfl log ?_
    · exact ⟨no_replay, accepted⟩
    · simpa [next, placeAfter, no_replay, appendToken] using last
  · have published : seq.published eosTokenIds token = seq.appendToken token := by
      simp [Sequence.published, stops]
    have place : placeAfter (seq.appendToken token) = .decoding := by
      simp [placeAfter, appendToken, running, prefilled]
    rw [published, place]
    refine h.feed history ⟨prefilled, accepted, fun cursor here => ?_, running⟩ inputs rfl log ?_
    · cases no_replay.symm.trans here
    · simpa [next, no_replay, appendToken] using last

theorem prefilled_inv (h : s.Inv) (batch : s.place = .batch) (token : Int) :
    Inv { s with
      seq := s.seq.prefilled eosTokenIds token
      place := placeAfter (s.seq.prefilled eosTokenIds token)
      fed := s.fed ++ s.seq.prefillInputs } := by
  have placed : s.Prefilling ∧ s.HasChunk := by simpa [Placed, batch] using h.placed
  obtain ⟨prefilling, chunk, chunk_size, positive, fits⟩ := placed
  obtain ⟨start, at_start⟩ := Int.eq_ofNat_of_zero_le prefilling.prefilled_nonneg
  have here : s.next = start := by simp [next, batch, at_start]
  have le := h.history.prompt_le
  have log : s.seq.prefillInputs = (range' s.next chunk).map s.seq.inputAt := by
    rw [here]
    exact prefillInputs_eq h.history at_start chunk_size (at_start ▸ fits)
  rw [log]
  have advanced : s.seq.advancePrefill = { s.seq with numPrefilledTokens := start + chunk } := by
    simp [advancePrefill, at_start, chunk_size]
  rw [at_start] at fits
  by_cases unfinished : (start + chunk : Int) < s.seq.numPromptTokens
  · have prefilled : s.seq.prefilled eosTokenIds token =
        { s.seq with numPrefilledTokens := start + chunk, status := .waiting } := by
      simp [Sequence.prefilled, advanced, unfinished]
    have place : placeAfter { s.seq with
        numPrefilledTokens := (start + chunk : Int), status := .waiting } = .waiting := by
      simp [placeAfter, unfinished]
    rw [prefilled, place]
    refine h.feed (h.history.congr ⟨rfl, rfl, rfl, rfl, rfl, rfl⟩) ?_ (fun _ _ => rfl) rfl rfl ?_
    · refine ⟨?_, fits, prefilling.hit_nonneg, prefilling.fresh, prefilling.replay⟩
      dsimp only
      omega
    · rw [here]
      simp only [next]
      omega
  · have whole : (start + chunk : Int) = s.seq.numPromptTokens :=
      le_antisymm fits (not_lt.mp unfinished)
    let seq : Sequence := { s.seq with numPrefilledTokens := start + chunk, status := .running }
    have prefilled : s.seq.prefilled eosTokenIds token =
        if seq.isRecomputeReplay then
          if seq.replayDecodeTokenCount = 0 then seq.finishRecomputeReplay else seq
        else seq.published eosTokenIds token := by
      simp only [Sequence.prefilled, advanced]
      exact if_neg unfinished
    have same : SameHistory s.seq seq := ⟨rfl, rfl, rfl, rfl, rfl, rfl⟩
    cases replaying : s.seq.recomputeReplayCursor with
    | none =>
      have fresh := prefilling.fresh replaying
      simp only [numCompletionTokens] at fresh
      have normal : ¬ seq.isRecomputeReplay = true := by
        simp [seq, isRecomputeReplay, replaying]
      rw [prefilled, if_neg normal]
      exact published_inv h seq token same (by omega) whole replaying nofun rfl
    | some cursor =>
      obtain ⟨rfl, accepted, -, -⟩ := prefilling.replay cursor replaying
      have replay : seq.isRecomputeReplay = true := by
        simp [seq, isRecomputeReplay, replaying]
      have count : seq.replayDecodeTokenCount = s.seq.numCompletionTokens - 1 := by
        have same_count : seq.numCompletionTokens = s.seq.numCompletionTokens := rfl
        simp only [replayDecodeTokenCount, same_count]
        omega
      have place : ∀ seq' : Sequence, seq'.status = .running → seq'.numPrefilledTokens = start + chunk →
          seq'.numPromptTokens = s.seq.numPromptTokens → placeAfter seq' = .decoding := by
        intro seq' status at_end prompt
        simp [placeAfter, status, at_end, prompt, whole]
      by_cases last : s.seq.numCompletionTokens = 1
      · -- the last accepted token is the next input, nothing else has to be fed again
        rw [prefilled, if_pos replay, if_pos (by omega),
          place seq.finishRecomputeReplay rfl rfl rfl]
        refine h.feed (h.history.congr ⟨rfl, rfl, rfl, rfl, rfl, rfl⟩) ?_ (fun _ _ => rfl) rfl rfl ?_
        · exact ⟨whole, accepted, nofun, nofun⟩
        · simp only [numCompletionTokens] at last
          rw [here]
          simp only [next, finishRecomputeReplay, seq]
          omega
      · rw [prefilled, if_pos replay, if_neg (by omega), place seq rfl rfl rfl]
        refine h.feed (h.history.congr same) ?_ (fun _ _ => rfl) rfl rfl ?_
        · refine ⟨whole, accepted, fun cursor' here' => ?_, nofun⟩
          obtain rfl := Option.some.inj (replaying.symm.trans here')
          have same_count : seq.numCompletionTokens = s.seq.numCompletionTokens := rfl
          dsimp only
          omega
        · rw [here]
          simp only [next, seq, replaying]
          omega

theorem decodeInput_eq (h : s.Inv) (decoding : s.place = .decoding) :
    s.seq.decodeInputToken = .ok (s.seq.inputAt s.next).1 ∧
      s.seq.decodeInputPosition = (s.seq.inputAt s.next).2 := by
  have placed : s.Decoding := by simpa [Placed, decoding] using h.placed
  have length := h.history.length
  have le := h.history.prompt_le
  have nonneg := h.history.prompt_nonneg
  have accepted := placed.completion
  simp only [numCompletionTokens] at accepted
  cases replaying : s.seq.recomputeReplayCursor with
  | none =>
    have here : s.next = (s.seq.numTokens - 1).toNat := by simp [next, decoding, replaying]
    have beyond : ¬ ((s.next : Int) < s.seq.numPromptTokens) := by omega
    have last : s.seq.tokenIds.length - 1 = s.next := by omega
    have inside : s.next < s.seq.tokenIds.length := by omega
    have token : s.seq.lastToken = some s.seq.tokenIds[s.next] := by
      rw [h.history.last_token, getLast?_eq_getElem?, last, getElem?_eq_getElem inside]
    have normal : s.seq.isRecomputeDecode = false := by
      simp [isRecomputeDecode, isRecomputeReplay, replaying]
    refine ⟨?_, ?_⟩
    · simp [decodeInputToken, normal, requireLastToken, token, inputAt,
        getElem?_eq_getElem inside]
    · simp only [decodeInputPosition, normal, inputAt, if_neg beyond]
      simp
      omega
  | some cursor =>
    obtain ⟨cursor_nonneg, below⟩ := placed.replay cursor replaying
    simp only [numCompletionTokens] at below
    have here : s.next = (s.seq.numPromptTokens + cursor).toNat := by
      simp [next, decoding, replaying]
    have beyond : ¬ ((s.next : Int) < s.seq.numPromptTokens) := by omega
    have inside : s.next < s.seq.tokenIds.length := by omega
    have replay : s.seq.isRecomputeDecode = true := by
      simp [isRecomputeDecode, isRecomputeReplay, replaying, placed.prefilled]
    have left : ¬ s.seq.replayDecodeTokenCount ≤ cursor := by
      simp only [replayDecodeTokenCount, numCompletionTokens]
      omega
    refine ⟨?_, ?_⟩
    · simp [decodeInputToken, replay, replaying, left, ← here, inputAt,
        getElem?_eq_getElem inside]
    · simp only [decodeInputPosition, replay, replaying, inputAt, if_neg beyond]
      simp
      omega

theorem decoded_inv (h : s.Inv) (decoding : s.place = .decoding) (token input : Int)
    (ran : s.seq.decodeInputToken = .ok input) :
    Inv { s with
      seq := s.seq.decoded eosTokenIds token
      place := placeAfter (s.seq.decoded eosTokenIds token)
      fed := s.fed ++ [(input, s.seq.decodeInputPosition)] } := by
  have placed : s.Decoding := by simpa [Placed, decoding] using h.placed
  obtain ⟨token_eq, position_eq⟩ := decodeInput_eq h decoding
  obtain rfl : (s.seq.inputAt s.next).1 = input := Except.ok.inj (token_eq.symm.trans ran)
  have log : s.fed ++ [((s.seq.inputAt s.next).1, s.seq.decodeInputPosition)] =
      s.fed ++ (range' s.next 1).map s.seq.inputAt := by
    rw [position_eq]
    rfl
  have accepted := placed.completion
  have nonneg := h.history.prompt_nonneg
  simp only [numCompletionTokens] at accepted
  rw [log]
  cases replaying : s.seq.recomputeReplayCursor with
  | none =>
    have decoded : s.seq.decoded eosTokenIds token = s.seq.published eosTokenIds token := by
      simp [Sequence.decoded, isRecomputeDecode, isRecomputeReplay, replaying]
    have here : s.next = (s.seq.numTokens - 1).toNat := by simp [next, decoding, replaying]
    rw [decoded]
    refine published_inv h _ token ⟨rfl, rfl, rfl, rfl, rfl, rfl⟩ ?_ placed.prefilled replaying
      placed.running rfl
    omega
  | some cursor =>
    obtain ⟨cursor_nonneg, below⟩ := placed.replay cursor replaying
    simp only [numCompletionTokens] at below
    have replay : s.seq.isRecomputeDecode = true := by
      simp [isRecomputeDecode, isRecomputeReplay, replaying, placed.prefilled]
    have here : s.next = (s.seq.numPromptTokens + cursor).toNat := by
      simp [next, decoding, replaying]
    let seq : Sequence := { s.seq with recomputeReplayCursor := some (cursor + 1) }
    have advanced : s.seq.decoded eosTokenIds token =
        if s.seq.replayDecodeTokenCount ≤ cursor + 1 then seq.finishRecomputeReplay else seq := by
      simp only [Sequence.decoded, replay, if_true, advanceRecomputeReplay, replaying,
        getD_some]
      rfl
    have place : ∀ seq' : Sequence, seq'.status = s.seq.status →
        seq'.numPrefilledTokens = seq'.numPromptTokens → placeAfter seq' = .decoding := by
      intro seq' status whole
      simp [placeAfter, status, placed.running, whole]
    have same : SameHistory s.seq seq := ⟨rfl, rfl, rfl, rfl, rfl, rfl⟩
    have count : s.seq.replayDecodeTokenCount = s.seq.numTokens - s.seq.numPromptTokens - 1 := by
      simp only [replayDecodeTokenCount, numCompletionTokens]
      omega
    by_cases last : cursor + 1 = s.seq.numTokens - s.seq.numPromptTokens - 1
    · rw [advanced, if_pos (by omega), place seq.finishRecomputeReplay rfl placed.prefilled]
      refine h.feed (h.history.congr ⟨rfl, rfl, rfl, rfl, rfl, rfl⟩) ?_ (fun _ _ => rfl) rfl rfl ?_
      · exact ⟨placed.prefilled, placed.completion, nofun, placed.running⟩
      · rw [here]
        simp only [next, finishRecomputeReplay, seq]
        omega
    · rw [advanced, if_neg (by omega), place seq rfl placed.prefilled]
      refine h.feed (h.history.congr same) ?_ (fun _ _ => rfl) rfl rfl ?_
      · refine ⟨placed.prefilled, placed.completion, fun cursor' here' => ?_, placed.running⟩
        obtain rfl := Option.some.inj here'
        have same_count : seq.numCompletionTokens = s.seq.numTokens - s.seq.numPromptTokens := rfl
        dsimp only
        omega
      · rw [here]
        simp only [next, seq]
        omega

variable {op : SequenceOp}

theorem step_decoded {token : Int} (stepped : step eosTokenIds s (.decoded token) = some s') :
    s.place = .decoding ∧ ∃ input, s.seq.decodeInputToken = .ok input ∧
      s' = { s with
        seq := s.seq.decoded eosTokenIds token
        place := placeAfter (s.seq.decoded eosTokenIds token)
        fed := s.fed ++ [(input, s.seq.decodeInputPosition)] } := by
  simp only [step, ite_none_right_eq_some] at stepped
  obtain ⟨decoding, ran⟩ := stepped
  cases input : s.seq.decodeInputToken with
  | error e =>
    rw [input] at ran
    cases ran
  | ok token' =>
    rw [input] at ran
    exact ⟨decoding, token', rfl, (Option.some.inj ran).symm⟩

theorem step_inv (h : s.Inv) (stepped : step eosTokenIds s op = some s') : s'.Inv := by
  cases op with
  | refresh hitLen hit =>
    simp only [step, ite_none_right_eq_some, Option.some.injEq] at stepped
    obtain ⟨⟨waiting, -, fresh⟩, rfl⟩ := stepped
    exact refresh_inv h waiting fresh hitLen hit
  | schedule chunk =>
    simp only [step, ite_none_right_eq_some, Option.some.injEq] at stepped
    obtain ⟨⟨waiting, positive, -, remaining⟩, rfl⟩ := stepped
    exact schedule_inv h waiting positive remaining
  | prefilled token =>
    simp only [step, ite_none_right_eq_some, Option.some.injEq] at stepped
    obtain ⟨batch, rfl⟩ := stepped
    exact prefilled_inv h batch token
  | decoded token =>
    obtain ⟨decoding, input, ran, rfl⟩ := step_decoded stepped
    exact decoded_inv h decoding token input ran
  | preempt =>
    simp only [step, ite_none_right_eq_some, Option.some.injEq] at stepped
    obtain ⟨decoding, rfl⟩ := stepped
    exact preempt_inv h decoding
  | checkpoint =>
    simp only [step, ite_none_right_eq_some, Option.some.injEq] at stepped
    obtain ⟨decoding, rfl⟩ := stepped
    exact checkpoint_inv h decoding

variable {ops : List SequenceOp}

theorem run_inv : ∀ {s s' : SequenceRun}, s.Inv → run eosTokenIds s ops = some s' → s'.Inv := by
  induction ops with
  | nil => rintro s s' h ⟨⟩; exact h
  | cons op ops ih =>
    intro s s' h ran
    obtain ⟨s₁, stepped, rest⟩ := bind_eq_some_iff.mp ran
    exact ih (step_inv h stepped) rest

structure Accepts (s s' : SequenceRun) : Prop where
  tokens : s.seq.tokenIds <+: s'.seq.tokenIds
  prompt : s'.seq.numPromptTokens = s.seq.numPromptTokens
  replay : s.seq.isRecomputeReplay = true → s'.seq.tokenIds = s.seq.tokenIds

theorem Accepts.of_same (same : SameHistory s.seq s'.seq) : Accepts s s' where
  tokens := by rw [same.tokens]
  prompt := same.num_prompt
  replay _ := same.tokens

structure Quiet (seq seq' : Sequence) : Prop where
  same : SameHistory seq seq'
  cursor : seq'.isRecomputeReplay = true → seq.isRecomputeReplay = true

inductive Outcome (eosTokenIds : List Int) (token : Int) (seq : Sequence) : Sequence → Prop
  | quiet {seq' : Sequence} : Quiet seq seq' → Outcome eosTokenIds token seq seq'
  | publishes {seq' : Sequence} : Quiet seq seq' → seq.isRecomputeReplay = false →
      Outcome eosTokenIds token seq (seq'.published eosTokenIds token)

theorem prefilled_outcome (eosTokenIds : List Int) (seq : Sequence) (token : Int) :
    Outcome eosTokenIds token seq (seq.prefilled eosTokenIds token) := by
  unfold Sequence.prefilled
  dsimp only
  split
  · exact .quiet ⟨⟨rfl, rfl, rfl, rfl, rfl, rfl⟩, fun replay => replay⟩
  · split
    · split
      · exact .quiet ⟨⟨rfl, rfl, rfl, rfl, rfl, rfl⟩, nofun⟩
      · exact .quiet ⟨⟨rfl, rfl, rfl, rfl, rfl, rfl⟩, fun replay => replay⟩
    · next normal =>
      exact .publishes ⟨⟨rfl, rfl, rfl, rfl, rfl, rfl⟩, fun replay => replay⟩
        (Bool.eq_false_iff.mpr normal)

theorem decoded_outcome (eosTokenIds : List Int) {seq : Sequence}
    (at_end : seq.numPrefilledTokens = seq.numPromptTokens) (token : Int) : Outcome eosTokenIds token seq (seq.decoded eosTokenIds token) := by
  unfold Sequence.decoded
  split
  · next replay =>
    have replaying : seq.isRecomputeReplay = true := by
      simp only [isRecomputeDecode, Bool.and_eq_true] at replay
      exact replay.1
    unfold advanceRecomputeReplay
    dsimp only
    split
    · exact .quiet ⟨⟨rfl, rfl, rfl, rfl, rfl, rfl⟩, fun _ => replaying⟩
    · exact .quiet ⟨⟨rfl, rfl, rfl, rfl, rfl, rfl⟩, fun _ => replaying⟩
  · next normal =>
    have not_replaying : seq.isRecomputeReplay = false := by
      simpa [isRecomputeDecode, at_end] using normal
    exact .publishes ⟨⟨rfl, rfl, rfl, rfl, rfl, rfl⟩, fun replay => replay⟩ not_replaying

theorem Outcome.accepts {seq' : Sequence} {token : Int}
    (outcome : Outcome eosTokenIds token s.seq seq') (after : s'.seq = seq') :
    Accepts s s' ∧ (s'.seq.isRecomputeReplay = true → s.seq.isRecomputeReplay = true) := by
  cases outcome with
  | quiet quiet =>
    rw [← after] at quiet
    exact ⟨.of_same quiet.same, quiet.cursor⟩
  | @publishes seq₀ quiet normal =>
    have fields : (seq₀.published eosTokenIds token).tokenIds = s.seq.tokenIds ++ [token] ∧
        (seq₀.published eosTokenIds token).numPromptTokens = s.seq.numPromptTokens ∧
        (seq₀.published eosTokenIds token).isRecomputeReplay = seq₀.isRecomputeReplay := by
      simp only [Sequence.published]
      split <;>
        exact ⟨by simp [appendToken, quiet.same.tokens], quiet.same.num_prompt, rfl⟩
    rw [← after] at fields
    refine ⟨⟨?_, fields.2.1, fun replay => ?_⟩, fun replay => ?_⟩
    · rw [fields.1]
      exact prefix_append _ _
    · rw [normal] at replay
      cases replay
    · rw [fields.2.2] at replay
      exact quiet.cursor replay

theorem step_accepts (h : s.Inv) (stepped : step eosTokenIds s op = some s') :
    Accepts s s' ∧ (op ≠ .preempt → s'.seq.isRecomputeReplay = true →
      s.seq.isRecomputeReplay = true) := by
  cases op with
  | refresh hitLen hit =>
    simp only [step, ite_none_right_eq_some, Option.some.injEq] at stepped
    obtain ⟨-, rfl⟩ := stepped
    exact ⟨.of_same ⟨rfl, rfl, rfl, rfl, rfl, rfl⟩, fun _ replay => replay⟩
  | schedule chunk =>
    simp only [step, ite_none_right_eq_some, Option.some.injEq] at stepped
    obtain ⟨-, rfl⟩ := stepped
    have quiet : Quiet s.seq (s.seq.scheduled chunk) := by
      simp only [Sequence.scheduled, adoptHit]
      split
      · split <;> exact ⟨⟨rfl, rfl, rfl, rfl, rfl, rfl⟩, fun replay => replay⟩
      · exact ⟨⟨rfl, rfl, rfl, rfl, rfl, rfl⟩, fun replay => replay⟩
    exact ⟨.of_same quiet.same, fun _ => quiet.cursor⟩
  | prefilled token =>
    simp only [step, ite_none_right_eq_some, Option.some.injEq] at stepped
    obtain ⟨-, rfl⟩ := stepped
    have outcome := prefilled_outcome eosTokenIds s.seq token
    exact ⟨(outcome.accepts rfl).1, fun _ => (outcome.accepts rfl).2⟩
  | decoded token =>
    obtain ⟨decoding, input, ran, rfl⟩ := step_decoded stepped
    have placed : s.Decoding := by simpa [Placed, decoding] using h.placed
    have outcome := decoded_outcome eosTokenIds placed.prefilled token
    exact ⟨(outcome.accepts rfl).1, fun _ => (outcome.accepts rfl).2⟩
  | preempt =>
    simp only [step, ite_none_right_eq_some, Option.some.injEq] at stepped
    obtain ⟨decoding, rfl⟩ := stepped
    have placed : s.Decoding := by simpa [Placed, decoding] using h.placed
    rw [preempted_eq placed.completion]
    exact ⟨.of_same ⟨rfl, rfl, rfl, rfl, rfl, rfl⟩, fun no => absurd rfl no⟩
  | checkpoint =>
    simp only [step, ite_none_right_eq_some, Option.some.injEq] at stepped
    obtain ⟨-, rfl⟩ := stepped
    exact ⟨.of_same ⟨rfl, rfl, rfl, rfl, rfl, rfl⟩, fun _ replay => replay⟩

theorem run_accepts :
    ∀ {s s' : SequenceRun}, s.Inv → run eosTokenIds s ops = some s' →
      s.seq.tokenIds <+: s'.seq.tokenIds ∧ s'.seq.numPromptTokens = s.seq.numPromptTokens := by
  induction ops with
  | nil => rintro s s' h ⟨⟩; exact ⟨prefix_refl _, rfl⟩
  | cons op ops ih =>
    intro s s' h ran
    obtain ⟨s₁, stepped, rest⟩ := bind_eq_some_iff.mp ran
    have first := (step_accepts h stepped).1
    have later := ih (step_inv h stepped) rest
    exact ⟨first.tokens.trans later.1, later.2.trans first.prompt⟩

/-- A sequence that was preempted feeds its KV from position `0`. -/
structure Rebuilt (s : SequenceRun) : Prop where
  origin : s.origin = 0
  replay : s.place = .waiting ∨ s.place = .batch → s.seq.isRecomputeReplay = true

theorem prefilling_of_place {seq : Sequence}
    (place : placeAfter seq = .waiting ∨ placeAfter seq = .batch) :
    seq.numPrefilledTokens < seq.numPromptTokens := by
  by_contra whole
  simp only [placeAfter, whole, if_false] at place
  split at place <;> rcases place with place | place <;> cases place

theorem published_fields (eosTokenIds : List Int) (seq : Sequence) (token : Int) :
    (seq.published eosTokenIds token).numPrefilledTokens = seq.numPrefilledTokens ∧
      (seq.published eosTokenIds token).numPromptTokens = seq.numPromptTokens := by
  simp only [Sequence.published]
  split <;> exact ⟨rfl, rfl⟩

theorem prefilled_fields (eosTokenIds : List Int) (seq : Sequence) (token : Int) :
    (seq.prefilled eosTokenIds token).numPrefilledTokens = seq.advancePrefill.numPrefilledTokens ∧
      (seq.prefilled eosTokenIds token).numPromptTokens = seq.advancePrefill.numPromptTokens := by
  simp only [Sequence.prefilled]
  split
  · exact ⟨rfl, rfl⟩
  · split
    · split <;> exact ⟨rfl, rfl⟩
    · exact published_fields eosTokenIds _ token

theorem decoded_fields (eosTokenIds : List Int) (seq : Sequence) (token : Int) :
    (seq.decoded eosTokenIds token).numPrefilledTokens = seq.numPrefilledTokens ∧
      (seq.decoded eosTokenIds token).numPromptTokens = seq.numPromptTokens := by
  simp only [Sequence.decoded]
  split
  · simp only [advanceRecomputeReplay]
    split <;> exact ⟨rfl, rfl⟩
  · exact published_fields eosTokenIds seq token

theorem step_rebuilt (h : s.Inv) (rebuilt : s.Rebuilt) (stepped : step eosTokenIds s op = some s')
    (other : op ≠ .preempt) : s'.Rebuilt := by
  cases op with
  | refresh hitLen hit =>
    simp only [step, ite_none_right_eq_some, Option.some.injEq] at stepped
    obtain ⟨-, rfl⟩ := stepped
    exact ⟨rebuilt.origin, rebuilt.replay⟩
  | schedule chunk =>
    simp only [step, ite_none_right_eq_some, Option.some.injEq] at stepped
    obtain ⟨⟨waiting, -⟩, rfl⟩ := stepped
    have prefilling : s.Prefilling := by simpa [Placed, waiting] using h.placed
    have replaying := rebuilt.replay (.inl waiting)
    obtain ⟨cursor, here⟩ := isSome_iff_exists.mp replaying
    have no_hit := (prefilling.replay cursor here).2.2.1
    refine ⟨?_, fun _ => ?_⟩
    · dsimp only
      split
      · next unstarted =>
        simp [Sequence.scheduled, adoptHit, setChunk, unstarted, no_hit]
      · exact rebuilt.origin
    · have same : (s.seq.scheduled chunk).recomputeReplayCursor = s.seq.recomputeReplayCursor := by
        simp only [Sequence.scheduled, adoptHit]
        split
        · split <;> rfl
        · rfl
      simpa only [isRecomputeReplay, same] using replaying
  | prefilled token =>
    simp only [step, ite_none_right_eq_some, Option.some.injEq] at stepped
    obtain ⟨batch, rfl⟩ := stepped
    refine ⟨rebuilt.origin, fun place => ?_⟩
    have replaying := rebuilt.replay (.inr batch)
    have unfinished := prefilling_of_place place
    have fields := prefilled_fields eosTokenIds s.seq token
    rw [fields.1, fields.2] at unfinished
    have partial_ : s.seq.prefilled eosTokenIds token =
        { s.seq.advancePrefill with status := .waiting } := if_pos unfinished
    rw [partial_]
    exact replaying
  | decoded token =>
    obtain ⟨decoding, input, ran, rfl⟩ := step_decoded stepped
    have placed : s.Decoding := by simpa [Placed, decoding] using h.placed
    refine ⟨rebuilt.origin, fun place => ?_⟩
    have unfinished := prefilling_of_place place
    have fields := decoded_fields eosTokenIds s.seq token
    rw [fields.1, fields.2, placed.prefilled] at unfinished
    exact absurd unfinished (lt_irrefl _)
  | preempt => exact absurd rfl other
  | checkpoint =>
    simp only [step, ite_none_right_eq_some, Option.some.injEq] at stepped
    obtain ⟨-, rfl⟩ := stepped
    exact ⟨rebuilt.origin, rebuilt.replay⟩

/-- What is known of a sequence since its last preemption: it has accepted no token while it
replays, and the model was fed its history from position `0` on, each position once and in
order. -/
structure Replayed (base s : SequenceRun) : Prop where
  accepted : base.seq.tokenIds <+: s.seq.tokenIds
  replaying : s.seq.isRecomputeReplay = true → s.seq.tokenIds = base.seq.tokenIds
  fed : s.fed = (range s.next).map s.seq.inputAt

theorem run_replayed {base : SequenceRun} (others : ∀ op ∈ ops, op ≠ .preempt) :
    ∀ {s s' : SequenceRun}, s.Inv → s.Rebuilt → Replayed base s → run eosTokenIds s ops = some s' →
      Replayed base s' := by
  induction ops with
  | nil => rintro s s' _ _ h ⟨⟩; exact h
  | cons op ops ih =>
    intro s s' inv rebuilt h ran
    obtain ⟨s₁, stepped, rest⟩ := bind_eq_some_iff.mp ran
    have other := others op mem_cons_self
    have inv₁ := step_inv inv stepped
    have rebuilt₁ := step_rebuilt inv rebuilt stepped other
    obtain ⟨accepts, cursor⟩ := step_accepts inv stepped
    refine ih (fun op' member => others op' (mem_cons_of_mem op member)) inv₁ rebuilt₁ ?_ rest
    refine ⟨h.accepted.trans accepts.tokens, fun replay => ?_, ?_⟩
    · have before := cursor other replay
      rw [accepts.replay before, h.replaying before]
    · rw [inv₁.fed, rebuilt₁.origin, Nat.sub_zero, range_eq_range']

theorem run_append (s : SequenceRun) (ops more : List SequenceOp) :
    run eosTokenIds s (ops ++ more) = (run eosTokenIds s ops).bind (run eosTokenIds · more) := by
  induction ops generalizing s with
  | nil => rfl
  | cons op ops ih =>
    simp only [cons_append, run]
    cases step eosTokenIds s op with
    | none => rfl
    | some s₁ => exact ih s₁

theorem preempt_replayed (h : s.Inv) (stepped : step eosTokenIds s .preempt = some s') :
    s'.Rebuilt ∧ Replayed s' s' := by
  simp only [step, ite_none_right_eq_some, Option.some.injEq] at stepped
  obtain ⟨decoding, rfl⟩ := stepped
  have placed : s.Decoding := by simpa [Placed, decoding] using h.placed
  rw [preempted_eq placed.completion]
  exact ⟨⟨rfl, fun _ => rfl⟩, prefix_refl _, fun _ => rfl, rfl⟩

theorem cursor_bounds (h : s.Inv) {cursor : Int}
    (here : s.seq.recomputeReplayCursor = some cursor) :
    0 ≤ cursor ∧ cursor ≤ s.seq.replayDecodeTokenCount := by
  have placed := h.placed
  simp only [replayDecodeTokenCount]
  cases place : s.place with
  | waiting =>
    simp only [Placed, place] at placed
    obtain ⟨rfl, -⟩ := placed.replay cursor here
    omega
  | batch =>
    simp only [Placed, place] at placed
    obtain ⟨rfl, -⟩ := placed.1.replay cursor here
    omega
  | decoding =>
    simp only [Placed, place] at placed
    have bounds := placed.replay cursor here
    omega
  | done =>
    simp only [Placed, place] at placed
    cases placed.1.symm.trans here

/-- Replay is transparent. In every run of a submitted request: the accepted tokens only grow. -/
theorem recompute_replay_transparent {seq : Sequence} (submitted : seq.Submitted)
    {before after : List SequenceOp} {base s : SequenceRun}
    (ran : run eosTokenIds (start seq) before = some base)
    (rest : run eosTokenIds base after = some s) :
    base.seq.tokenIds <+: s.seq.tokenIds ∧
    (before.getLast? = some .preempt → (∀ op ∈ after, op ≠ .preempt) → Replayed base s) ∧
    (∀ op s', step eosTokenIds s op = some s' → s.seq.isRecomputeReplay = true →
      s.seq.shouldPublishSample = false ∧ s'.seq.tokenIds = s.seq.tokenIds) ∧
    (∀ cursor, s.seq.recomputeReplayCursor = some cursor →
      0 ≤ cursor ∧ cursor ≤ s.seq.replayDecodeTokenCount) ∧
    (s.place = .decoding → s.seq.decodeInputToken = .ok (s.seq.inputAt s.next).1 ∧
      s.seq.decodeInputPosition = (s.seq.inputAt s.next).2) := by
  have inv₀ := run_inv (start_inv submitted) ran
  have inv := run_inv inv₀ rest
  refine ⟨(run_accepts inv₀ rest).1, fun last others => ?_, fun op s' stepped replay => ?_,
    fun cursor here => ?_, decodeInput_eq inv⟩
  · obtain ⟨first, rfl⟩ := getLast?_eq_some_iff.mp last
    rw [run_append] at ran
    obtain ⟨victim, ran_first, preempted⟩ := bind_eq_some_iff.mp ran
    have victim_inv := run_inv (start_inv submitted) ran_first
    obtain ⟨rebuilt, replayed⟩ := preempt_replayed victim_inv (by simpa [run] using preempted)
    exact run_replayed others inv₀ rebuilt replayed rest
  · refine ⟨by simp [shouldPublishSample, replay], ?_⟩
    exact (step_accepts inv stepped).1.replay replay
  · exact cursor_bounds inv here

def demoBefore : List SequenceOp :=
  [.schedule 1, .prefilled 0, .schedule 1, .prefilled 7, .decoded 8, .decoded 9, .preempt]

def demoAfter : List SequenceOp :=
  [.schedule 2, .prefilled 0, .decoded 0, .decoded 0, .decoded 5]

def demoRequest : Sequence := .create 0 [3, 4] 9

theorem demoRequest_submitted : demoRequest.Submitted := by
  constructor <;> first | rfl | decide

def demoBase : SequenceRun := (run [] (start demoRequest) demoBefore).getD (start demoRequest)

def demoLast : SequenceRun := (run [] demoBase demoAfter).getD demoBase

theorem recompute_replay_transparent_demo :
    run [] (start demoRequest) demoBefore = some demoBase ∧
      run [] demoBase demoAfter = some demoLast ∧ Replayed demoBase demoLast ∧
      demoLast.fed = [(3, 0), (4, 1), (7, 2), (8, 3), (9, 4)] := by
  have ran : run [] (start demoRequest) demoBefore = some demoBase := by decide +kernel
  have rest : run [] demoBase demoAfter = some demoLast := by decide +kernel
  have others : ∀ op ∈ demoAfter, op ≠ .preempt := by simp [demoAfter]
  refine ⟨ran, rest, ?_, by decide +kernel⟩
  exact (recompute_replay_transparent demoRequest_submitted ran rest).2.1 rfl others

end SequenceRun

namespace SchedulerState

open PyM

variable {ω κ ρ : Type} {s : SchedulerState ω} {id other : Nat}

theorem seqAt_updateSeq_self (f : Sequence → Sequence) :
    (updateSeq id f s).seqAt id = f (s.seqAt id) := by
  simp [updateSeq, seqAt]

theorem seqAt_updateSeq_ne (f : Sequence → Sequence) (differ : other ≠ id) :
    (updateSeq id f s).seqAt other = s.seqAt other := by
  simp [updateSeq, seqAt, Function.update_of_ne differ]

/-- A step of the scheduler turns one sequence of the store into `seq`. -/
structure Becomes (s s' : SchedulerState ω) (id : Nat) (seq : Sequence) : Prop where
  self : s'.seqAt id = seq
  others : ∀ other, other ≠ id → s'.seqAt other = s.seqAt other

theorem Becomes.update {s' : SchedulerState ω} {seq : Sequence} (h : Becomes s s' id seq)
    (f : Sequence → Sequence) : Becomes s (updateSeq id f s') id (f seq) where
  self := by rw [seqAt_updateSeq_self, h.self]
  others other differ := by rw [seqAt_updateSeq_ne f differ, h.others other differ]

theorem Becomes.refl (s : SchedulerState ω) (id : Nat) : Becomes s s id (s.seqAt id) :=
  ⟨rfl, fun _ _ => rfl⟩

theorem Becomes.outside {s' s'' : SchedulerState ω} {seq : Sequence} (h : Becomes s s' id seq)
    (same : s''.world.seqs = s'.world.seqs) : Becomes s s'' id seq := by
  have seqs : ∀ i, s''.seqAt i = s'.seqAt i := fun i => congrFun same i
  exact ⟨(seqs id).trans h.self, fun other differ => (seqs other).trans (h.others other differ)⟩

theorem publishToken_becomes (cfg : SchedulerConfig) (retain : Bool) (token : Int)
    {s₀ : SchedulerState ω} {seq : Sequence} (h : Becomes s₀ s id seq) :
    wp (publishToken cfg retain id token)
      (fun _ s' => Becomes s₀ s' id (seq.published cfg.eosTokenIds token)) (fun _ _ => False) s := by
  have appended := h.update (appendToken token)
  simp only [publishToken, wp_bind, wp_modify, wp_get, wp_ite, wp_pure, appended.self]
  by_cases stops : (seq.appendToken token).stopsAt cfg.eosTokenIds token = true
  · have published : seq.published cfg.eosTokenIds token =
        { seq.appendToken token with status := .finished } := by
      simp [Sequence.published, stops]
    rw [if_pos stops, published]
    refine (appended.update fun seq => { seq with status := .finished }).outside ?_
    split <;> rfl
  · have published : seq.published cfg.eosTokenIds token = seq.appendToken token := by
      simp [Sequence.published, stops]
    rwa [if_neg stops, published]

/-- `postprocess` of a decode batch is the step `decoded` of the sequence. -/
theorem postprocessDecode_becomes (cfg : SchedulerConfig) (retain : Bool) (token : Int)
    (s : SchedulerState ω) :
    wp (postprocessDecode cfg retain id token)
      (fun _ s' => Becomes s s' id ((s.seqAt id).decoded cfg.eosTokenIds token))
      (fun _ _ => False) s := by
  simp only [postprocessDecode, wp_bind, wp_get, wp_ite, wp_modify, Sequence.decoded]
  split
  · exact (Becomes.refl s id).update _
  · exact publishToken_becomes cfg retain token (.refl s id)

theorem replayOrPublish_becomes (cfg : SchedulerConfig) (retain : Bool) (token : Int)
    {s₀ : SchedulerState ω} {seq : Sequence} (h : Becomes s₀ s id seq) :
    wp (do
        let s ← PyM.get
        if (s.seqAt id).isRecomputeReplay then
          PyM.modify fun s =>
            if (s.seqAt id).replayDecodeTokenCount = 0 then
              updateSeq id finishRecomputeReplay s
            else s
        else publishToken cfg retain id token)
      (fun _ s' => Becomes s₀ s' id (if seq.isRecomputeReplay then
          if seq.replayDecodeTokenCount = 0 then seq.finishRecomputeReplay else seq
        else seq.published cfg.eosTokenIds token))
      (fun _ _ => False) s := by
  simp only [wp_bind, wp_get, wp_ite, wp_modify, h.self]
  split
  · split
    · exact h.update _
    · exact h
  · exact publishToken_becomes cfg retain token h

/-- `postprocess` of a prefill batch is the step `prefilled` of the sequence, unless
`complete_prefill_execution` raises. -/
theorem postprocessPrefill_becomes (cfg : SchedulerConfig) (hooks : MemoryOracle ω κ ρ)
    (retain : Bool) (token : Int)
    (keeps : ∀ world, (hooks.completePrefillExecution id world).2.seqs = world.seqs)
    (s : SchedulerState ω) :
    wp (postprocessPrefill cfg hooks retain id token)
      (fun _ s' => Becomes s s' id ((s.seqAt id).prefilled cfg.eosTokenIds token))
      (fun _ s' => Becomes s s' id (s.seqAt id).advancePrefill) s := by
  have advanced := (Becomes.refl s id).update advancePrefill
  simp only [postprocessPrefill, wp_bind, wp_get, wp_ite, wp_modify, advanced.self,
    Sequence.prefilled]
  split
  · exact (advanced.update fun seq => { seq with status := .waiting }).outside rfl
  · rw [startDecoding, wp_bind, hook, wp_zoom]
    refine wp_mono wp_self (fun _ world ran => ?_) fun _ world ran => ?_
    all_goals
      have same := keeps (updateSeq id advancePrefill s).world
      rw [ran] at same
      have held : Becomes s { updateSeq id advancePrefill s with world := world } id
          (s.seqAt id).advancePrefill := advanced.outside same
    · have running := held.update fun seq => { seq with status := .running }
      rw [wp_bind, wp_modify]
      exact wp_mono (replayOrPublish_becomes cfg retain token (running.outside rfl))
        (fun _ _ h => h) fun _ _ no => no.elim
    · exact held

theorem resetVictim_becomes (victim : Nat) (s : SchedulerState ω) :
    Becomes s (resetVictim victim s) victim
      (if 0 < (s.seqAt victim).numCompletionTokens then (s.seqAt victim).startRecomputeReplay
        else (s.seqAt victim).restartPrefill) := by
  simp only [resetVictim]
  split
  · exact ((Becomes.refl s victim).update _).outside rfl
  · exact (Becomes.refl s victim).update _

end SchedulerState

end SparseEngine
