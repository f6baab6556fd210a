import SparseEngine.Lib.Py

/-! At its context boundary a compressible prompt is replayed chunk by chunk. -/

namespace SparseEngine.KVzip

structure KVzipConfig where
  maxModelLen : Nat
  enginePrefillChunkSize : Nat
  kvzipTokenBudget : Nat
  kvzipScoreChunkSize : Nat
  kvzipPrevPostfixSize : Nat
  /-- `_normalize_kvzip` refuses an empty score chunk. -/
  scoreChunk_pos : 0 < kvzipScoreChunkSize

structure ReconstructionPrompt where
  first : List Int
  continuation : List Int
  suffix : List Int

/-- The part of a `Sequence` that KVzip reads. -/
structure KVzipSequence where
  tokenIds : List Int
  contextLength : Option Nat
  contextPrefixLength : Nat
  numPrefilledTokens : Nat

variable (cfg : KVzipConfig) (template : ReconstructionPrompt)

/-- `kvzip_reconstruction_slot_reserve`. -/
def reconstructionSlotReserve : Nat :=
  if cfg.maxModelLen ≤ cfg.kvzipTokenBudget then 0 else cfg.enginePrefillChunkSize

/-- `set_reconstruction_prompt`. -/
def setReconstructionPrompt : Except PyError ReconstructionPrompt :=
  if template.first = [] ∨ template.continuation = [] ∨ template.suffix = [] then
    .error (.valueError
      "KVzip needs nonempty first/continuation/assistant-suffix token IDs.")
  else
    let peak := max template.first.length template.continuation.length + template.suffix.length +
      cfg.kvzipScoreChunkSize + cfg.kvzipPrevPostfixSize
    if cfg.enginePrefillChunkSize < peak then
      .error (.valueError ("KVzip reconstruction prompt + kvzip_score_chunk_size + " ++
        "kvzip_prev_postfix_size must fit engine_prefill_chunk_size: " ++
        s!"replay={peak} capacity={cfg.enginePrefillChunkSize}."))
    else
      .ok template

/-- The replay that `prompt_admission_costs` reckons with. -/
def replayEstimate (contextSize : Nat) : Nat :=
  let chunk := cfg.kvzipScoreChunkSize
  let replay := template.suffix.length + template.first.length + min contextSize chunk
  if chunk < contextSize then
    max replay (template.suffix.length + template.continuation.length +
      min chunk cfg.kvzipPrevPostfixSize + min (contextSize - chunk) chunk)
  else
    replay

/-- `prompt_admission_costs`. -/
def promptAdmissionCosts {α : Type} (prompt : Option ReconstructionPrompt) (seq : KVzipSequence)
    (storageCosts : α) : Except PyError α :=
  match seq.contextLength with
  | none =>
    if cfg.kvzipTokenBudget < seq.tokenIds.length then
      .error (.valueError ("Compressible KVzip requests require context_length and " ++
        "context_prefix_length; question KV must be processed after eviction."))
    else
      .ok storageCosts
  | some length =>
    let contextSize := length - seq.contextPrefixLength
    if contextSize ≤ cfg.kvzipTokenBudget then
      .ok storageCosts
    else if seq.contextPrefixLength = 0 then
      .error (.valueError
        "KVzip requires a nonempty protected system prefix via context_prefix_length.")
    else
      match prompt with
      | none => .error (.runtimeError "KVzip reconstruction prompt has not been initialized.")
      | some template =>
        let replay := replayEstimate cfg template contextSize
        if cfg.maxModelLen < length + replay then
          .error (.valueError ("KVzip prompt plus reconstruction replay exceeds max_model_len: " ++
            s!"prompt={length} replay={replay} capacity={cfg.maxModelLen}. " ++
            "Shorten the prompt or reduce kvzip_score_chunk_size."))
        else
          .ok storageCosts

structure Replay where
  chunkStart : Nat
  chunkEnd : Nat
  tokens : List Int
deriving DecidableEq, Repr

/-- The body of the loop of `KVzipRuntime.finish_step`. -/
def replayAt (prefixLength length : Nat) (source : List Int) (start : Nat) : Replay :=
  let chunkEnd := min length (start + cfg.kvzipScoreChunkSize)
  let previous := min cfg.kvzipScoreChunkSize cfg.kvzipPrevPostfixSize
  let postfixStart := max prefixLength (start - previous)
  let instruction :=
    if start = prefixLength then template.first
    else template.continuation ++ (source.drop postfixStart).take (start - postfixStart)
  ⟨start, chunkEnd, instruction ++ template.suffix ++ (source.drop start).take (chunkEnd - start)⟩

/-- The replays of a context. -/
def replays (prefixLength length : Nat) (source : List Int) : List Replay :=
  (List.range ((length - prefixLength + cfg.kvzipScoreChunkSize - 1) / cfg.kvzipScoreChunkSize)).map
    fun k => replayAt cfg template prefixLength length source
      (prefixLength + k * cfg.kvzipScoreChunkSize)

variable {cfg} {template} {prefixLength length : Nat} {source : List Int}

theorem flatMap_chunks (start size total n : Nat) :
    ((List.range n).flatMap fun k => List.range' (start + k * size)
      (min (start + total) (start + k * size + size) - (start + k * size))) =
      List.range' start (min total (n * size)) := by
  induction n with
  | zero => simp
  | succ n ih =>
    rw [List.range_succ, List.flatMap_append, ih, List.flatMap_singleton, Nat.succ_mul]
    rcases Nat.le_total (n * size) total with hle | hle
    · rw [Nat.min_eq_right hle, List.range'_append_1]
      congr 1
      omega
    · have hnone : min (start + total) (start + n * size + size) - (start + n * size) = 0 := by omega
      rw [hnone, Nat.min_eq_left hle, Nat.min_eq_left (by omega), List.range'_zero, List.append_nil]

theorem replays_cover (h : prefixLength ≤ length) :
    ((replays cfg template prefixLength length source).flatMap fun r =>
      List.range' r.chunkStart (r.chunkEnd - r.chunkStart)) =
      List.range' prefixLength (length - prefixLength) := by
  have hall : length - prefixLength ≤
      (length - prefixLength + cfg.kvzipScoreChunkSize - 1) / cfg.kvzipScoreChunkSize *
        cfg.kvzipScoreChunkSize := by
    have := Nat.lt_div_mul_add (a := length - prefixLength + cfg.kvzipScoreChunkSize - 1)
      cfg.scoreChunk_pos
    have := cfg.scoreChunk_pos
    omega
  have hchunks := flatMap_chunks prefixLength cfg.kvzipScoreChunkSize (length - prefixLength)
    ((length - prefixLength + cfg.kvzipScoreChunkSize - 1) / cfg.kvzipScoreChunkSize)
  rw [Nat.min_eq_left hall, Nat.add_sub_cancel' h] at hchunks
  rw [replays, List.flatMap_map]
  exact hchunks

theorem exists_of_mem_replays {r : Replay} (h : r ∈ replays cfg template prefixLength length source) :
    ∃ k, k * cfg.kvzipScoreChunkSize < length - prefixLength ∧
      r = replayAt cfg template prefixLength length source
        (prefixLength + k * cfg.kvzipScoreChunkSize) := by
  obtain ⟨k, hk, rfl⟩ := List.mem_map.mp h
  refine ⟨k, ?_, rfl⟩
  have hk := List.mem_range.mp hk
  have hle : (k + 1) * cfg.kvzipScoreChunkSize ≤
      length - prefixLength + cfg.kvzipScoreChunkSize - 1 :=
    (Nat.mul_le_mul_right _ hk).trans (Nat.div_mul_le_self _ _)
  rw [Nat.succ_mul] at hle
  have := cfg.scoreChunk_pos
  omega

theorem mem_replays {k : Nat} (hk : k * cfg.kvzipScoreChunkSize < length - prefixLength) :
    replayAt cfg template prefixLength length source (prefixLength + k * cfg.kvzipScoreChunkSize) ∈
      replays cfg template prefixLength length source := by
  refine List.mem_map.mpr ⟨k, List.mem_range.mpr ?_, rfl⟩
  refine (Nat.le_div_iff_mul_le cfg.scoreChunk_pos).mpr ?_
  rw [Nat.succ_mul]
  have := cfg.scoreChunk_pos
  omega

theorem length_replayAt_first (hsource : source.length = length) (h : prefixLength ≤ length) :
    (replayAt cfg template prefixLength length source prefixLength).tokens.length =
      template.suffix.length + template.first.length +
        min (length - prefixLength) cfg.kvzipScoreChunkSize := by
  simp only [replayAt, if_true, List.length_append, List.length_take, List.length_drop, hsource]
  omega

theorem length_replayAt_next (hsource : source.length = length) {start : Nat}
    (hlt : start < length) (hchunk : prefixLength + cfg.kvzipScoreChunkSize ≤ start) :
    (replayAt cfg template prefixLength length source start).tokens.length =
      template.suffix.length + template.continuation.length +
        min cfg.kvzipScoreChunkSize cfg.kvzipPrevPostfixSize +
        min (length - start) cfg.kvzipScoreChunkSize := by
  have hpos := cfg.scoreChunk_pos
  have hne : start ≠ prefixLength := by omega
  simp only [replayAt, if_neg hne, List.length_append, List.length_take, List.length_drop, hsource]
  omega

theorem length_le_replayEstimate (hsource : source.length = length) {r : Replay}
    (h : r ∈ replays cfg template prefixLength length source) :
    r.tokens.length ≤ replayEstimate cfg template (length - prefixLength) := by
  obtain ⟨k, hk, rfl⟩ := exists_of_mem_replays h
  have hpos := cfg.scoreChunk_pos
  cases k with
  | zero =>
    rw [Nat.zero_mul, Nat.add_zero, length_replayAt_first hsource (by omega), replayEstimate]
    split
    · exact Nat.le_max_left _ _
    · exact le_rfl
  | succ k =>
    rw [Nat.succ_mul] at hk ⊢
    rw [length_replayAt_next hsource (by omega) (by omega), replayEstimate, if_pos (by omega)]
    refine le_trans ?_ (Nat.le_max_right _ _)
    have hrest : min (length - (prefixLength + (k * cfg.kvzipScoreChunkSize + cfg.kvzipScoreChunkSize)))
        cfg.kvzipScoreChunkSize ≤ min (length - prefixLength - cfg.kvzipScoreChunkSize)
          cfg.kvzipScoreChunkSize := by omega
    omega

theorem replayEstimate_max (hsource : source.length = length) (h : prefixLength < length) :
    (∀ r ∈ replays cfg template prefixLength length source,
      r.tokens.length ≤ replayEstimate cfg template (length - prefixLength)) ∧
    ∃ r ∈ replays cfg template prefixLength length source,
      r.tokens.length = replayEstimate cfg template (length - prefixLength) := by
  refine ⟨fun r hr => length_le_replayEstimate hsource hr, ?_⟩
  have hfirst := @length_replayAt_first cfg template prefixLength length source hsource h.le
  have hmem : replayAt cfg template prefixLength length source prefixLength ∈
      replays cfg template prefixLength length source := by
    have := @mem_replays cfg template prefixLength length source 0 (by rw [Nat.zero_mul]; omega)
    rwa [Nat.zero_mul, Nat.add_zero] at this
  rw [replayEstimate]
  split
  · next hchunk =>
    have hnext := @length_replayAt_next cfg template prefixLength length source hsource
      (prefixLength + 1 * cfg.kvzipScoreChunkSize) (by omega) (by omega)
    have hmem' := @mem_replays cfg template prefixLength length source 1 (by omega)
    rw [Nat.one_mul, ← Nat.sub_sub] at hnext
    rw [Nat.one_mul] at hmem'
    rcases Nat.le_total
        (template.suffix.length + template.first.length +
          min (length - prefixLength) cfg.kvzipScoreChunkSize)
        (template.suffix.length + template.continuation.length +
          min cfg.kvzipScoreChunkSize cfg.kvzipPrevPostfixSize +
          min (length - prefixLength - cfg.kvzipScoreChunkSize) cfg.kvzipScoreChunkSize) with hle | hle
    · exact ⟨_, hmem', hnext.trans (Nat.max_eq_right hle).symm⟩
    · exact ⟨_, hmem, hfirst.trans (Nat.max_eq_left hle).symm⟩
  · exact ⟨_, hmem, hfirst⟩

theorem replayEstimate_le {accepted : ReconstructionPrompt}
    (h : setReconstructionPrompt cfg template = .ok accepted) (contextSize : Nat) :
    replayEstimate cfg accepted contextSize ≤ cfg.enginePrefillChunkSize := by
  rw [setReconstructionPrompt] at h
  split at h
  · cases h
  · dsimp only at h
    split at h
    · cases h
    · next hpeak =>
      obtain rfl := Except.ok.inj h
      rw [replayEstimate]
      have hfirst := Nat.le_max_left template.first.length template.continuation.length
      have hcont := Nat.le_max_right template.first.length template.continuation.length
      split
      · refine Nat.max_le.mpr ⟨?_, ?_⟩ <;> omega
      · omega

theorem promptAdmissionCosts_ok {α : Type} {prompt : Option ReconstructionPrompt}
    {seq : KVzipSequence} {storageCosts costs : α}
    (h : promptAdmissionCosts cfg prompt seq storageCosts = .ok costs)
    (hlength : seq.contextLength = some length)
    (hbudget : cfg.kvzipTokenBudget < length - seq.contextPrefixLength) :
    0 < seq.contextPrefixLength ∧ ∃ template, prompt = some template ∧
      length + replayEstimate cfg template (length - seq.contextPrefixLength) ≤ cfg.maxModelLen := by
  rw [promptAdmissionCosts, hlength] at h
  simp only [if_neg (not_le.mpr hbudget)] at h
  split at h
  · cases h
  · next hprefix =>
    refine ⟨Nat.pos_of_ne_zero hprefix, ?_⟩
    cases prompt with
    | none => cases h
    | some template =>
      refine ⟨template, rfl, ?_⟩
      by_contra hlt
      simp only [if_pos (not_le.mp hlt)] at h
      cases h

end SparseEngine.KVzip
