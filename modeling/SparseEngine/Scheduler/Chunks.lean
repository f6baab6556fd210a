import Mathlib.Algebra.Order.Group.Unbundled.Int

/-! How many prompt tokens the scheduler gives a sequence in a prefill step. -/

namespace SparseEngine.Scheduler

inductive PrefillExecution
  | full
  | chunked
  | rawOffload
deriving DecidableEq, Repr

structure ChunkInputs where
  mode : PrefillExecution
  freeSlots : Int
  stepFreeCount : Int
  privateSlots : Int := 0
  fullPrefillStaging : Bool := false
  remainingPrefillTokens : Int
  prefillStageRemaining : Int
  maxNumBatchedTokens : Int
  numBatchedTokens : Int := 0
  enginePrefillChunkSize : Int
  fits : Option (Int → Bool) := none
  minFinal : Nat := 0

def mixedPrefixBoundaryLimit (blockSize numPromptTokens numPrefilledTokens hitLen : Nat) : Nat :=
  let start := max numPrefilledTokens hitLen
  if numPromptTokens ≤ start then 0
  else min (numPromptTokens - start) (blockSize - start % blockSize)

/-- `prefill_step_free_slots_for`, with a prefix cache coordinator. -/
def prefillStepFreeSlotsFor (freeSlots : Int) (limit : Nat) : Int := min freeSlots limit

variable (x : ChunkInputs)

def prefillStepTokens (stepFreeCount : Int) : Int :=
  let remaining := min x.remainingPrefillTokens x.prefillStageRemaining
  match x.mode with
  | .full =>
    if remaining ≤ min (x.maxNumBatchedTokens - x.numBatchedTokens) stepFreeCount then remaining
    else 0
  | .chunked | .rawOffload =>
    min (min remaining x.enginePrefillChunkSize)
      (min (x.maxNumBatchedTokens - x.numBatchedTokens) stepFreeCount)

/-- The binary search of `_max_step_allocation_tokens`. -/
def searchFits (fits : Int → Bool) : Nat → Int → Int → Int
  | 0, low, _ => low
  | fuel + 1, low, high =>
    if low < high then
      let middle := (low + high + 1) / 2
      if fits middle then searchFits fits fuel middle high
      else searchFits fits fuel low (middle - 1)
    else low

/-- `_max_step_allocation_tokens`. -/
def maxStepAllocationTokens (fits : Option (Int → Bool)) (limit : Int) : Int :=
  match fits with
  | none => limit
  | some fits =>
    if limit ≤ 0 then limit
    else if fits limit then limit
    else searchFits fits limit.toNat 0 limit

def respectMinFinalPrefillChunk (minFinal : Nat) (remaining proposed : Int) : Int :=
  if minFinal = 0 ∨ remaining - proposed ≤ 0 ∨ (minFinal : Int) ≤ remaining - proposed then proposed
  else max 0 (remaining - minFinal)

/-- The chunk that `_schedule_impl` gives a sequence whose boundary limit is `limit`. -/
def chunkTokens (limit : Nat) : Int :=
  let free := prefillStepFreeSlotsFor x.freeSlots limit
  let free :=
    if x.mode ≠ .rawOffload ∧ x.fullPrefillStaging = false then
      min (x.stepFreeCount + x.privateSlots) free
    else free
  let tokens := prefillStepTokens x free
  let allocation := maxStepAllocationTokens x.fits tokens
  let tokens :=
    if x.mode = .chunked then allocation
    else if allocation < tokens then 0
    else tokens
  respectMinFinalPrefillChunk x.minFinal x.remainingPrefillTokens tokens

theorem prefillStepTokens_le {free limit : Int} (hfree : free ≤ limit)
    (hlimit : 0 ≤ limit) : prefillStepTokens x free ≤ limit := by
  unfold prefillStepTokens
  cases x.mode with
  | full =>
    dsimp only
    split
    · next hle => exact hle.trans ((min_le_right _ _).trans hfree)
    · exact hlimit
  | chunked => exact (min_le_right _ _).trans ((min_le_right _ _).trans hfree)
  | rawOffload => exact (min_le_right _ _).trans ((min_le_right _ _).trans hfree)

theorem searchFits_le (fits : Int → Bool) : ∀ (fuel : Nat) (low high : Int), low ≤ high →
    searchFits fits fuel low high ≤ high
  | 0, _, _, h => h
  | fuel + 1, low, high, h => by
    rw [searchFits]
    split
    · dsimp only
      split
      · exact searchFits_le fits fuel _ high (by omega)
      · exact (searchFits_le fits fuel low _ (by omega)).trans (by omega)
    · exact h

theorem maxStepAllocationTokens_le (fits : Option (Int → Bool)) (limit : Int) :
    maxStepAllocationTokens fits limit ≤ limit := by
  unfold maxStepAllocationTokens
  split
  · exact le_rfl
  · split
    · exact le_rfl
    · next hpos =>
      split
      · exact le_rfl
      · exact searchFits_le _ _ 0 limit (by omega)

theorem respectMinFinalPrefillChunk_le (minFinal : Nat) (remaining proposed : Int) {limit : Int}
    (hproposed : proposed ≤ limit) (hlimit : 0 ≤ limit) :
    respectMinFinalPrefillChunk minFinal remaining proposed ≤ limit := by
  unfold respectMinFinalPrefillChunk
  split
  · exact hproposed
  · exact max_le hlimit (by omega)

theorem chunkTokens_le (limit : Nat) : chunkTokens x limit ≤ limit := by
  have hlimit : (0 : Int) ≤ limit := Int.natCast_nonneg limit
  have hfree : prefillStepFreeSlotsFor x.freeSlots limit ≤ limit := min_le_right _ _
  unfold chunkTokens
  refine respectMinFinalPrefillChunk_le _ _ _ ?_ hlimit
  have htokens : ∀ free : Int, free ≤ limit → prefillStepTokens x free ≤ limit :=
    fun free hle => prefillStepTokens_le x hle hlimit
  have hcandidate : (if x.mode ≠ .rawOffload ∧ x.fullPrefillStaging = false then
      min (x.stepFreeCount + x.privateSlots) (prefillStepFreeSlotsFor x.freeSlots limit)
      else prefillStepFreeSlotsFor x.freeSlots limit) ≤ limit := by
    split
    · exact (min_le_right _ _).trans hfree
    · exact hfree
  have hle := htokens _ hcandidate
  generalize prefillStepTokens x _ = tokens at hle ⊢
  split
  · exact (maxStepAllocationTokens_le _ _).trans hle
  · split
    · exact hlimit
    · exact hle

theorem mixedPrefixBoundaryLimit_le (blockSize prompt prefilled hitLen : Nat) :
    mixedPrefixBoundaryLimit blockSize prompt prefilled hitLen ≤
        blockSize - max prefilled hitLen % blockSize ∧
      mixedPrefixBoundaryLimit blockSize prompt prefilled hitLen ≤ prompt - max prefilled hitLen := by
  unfold mixedPrefixBoundaryLimit
  dsimp only
  split
  · exact ⟨Nat.zero_le _, Nat.zero_le _⟩
  · exact ⟨min_le_right _ _, min_le_left _ _⟩

end SparseEngine.Scheduler
