import SparseEngine.Scheduler.Schedule

/-! Most of a scheduling pass asks the memory oracle and computes. -/

namespace SparseEngine

open PyM

variable {ω κ ρ : Type}

/-- Every hook moves its world along `R`, also when it raises. -/
structure MemoryOracle.Frames (hooks : MemoryOracle ω κ ρ)
    (R : OracleWorld ω → OracleWorld ω → Prop) : Prop where
  numFreeSlots : Along R hooks.numFreeSlots
  reserveDecodeWindows : ∀ decoding waiting, Along R (hooks.reserveDecodeWindows decoding waiting)
  prefillBatchedTokensMargin : Along R hooks.prefillBatchedTokensMargin
  remainingPrefillTokens : ∀ id, Along R (hooks.remainingPrefillTokens id)
  prefillExecutionMode : ∀ id, Along R (hooks.prefillExecutionMode id)
  prefillBatchCompatibilityKey : ∀ id, Along R (hooks.prefillBatchCompatibilityKey id)
  resetPrefillExecutionState : ∀ id, Along R (hooks.resetPrefillExecutionState id)
  completePrefillExecution : ∀ id, Along R (hooks.completePrefillExecution id)
  reservedPrefillSlots : ∀ waiting chunk, Along R (hooks.reservedPrefillSlots waiting chunk)
  shouldScheduleFullPrefill : ∀ id, Along R (hooks.shouldScheduleFullPrefill id)
  prefillStepFreeSlots : Along R hooks.prefillStepFreeSlots
  prefillStepFreeSlotsFor : ∀ id, Along R (hooks.prefillStepFreeSlotsFor id)
  prefillPrivateSlotsFor : ∀ id, Along R (hooks.prefillPrivateSlotsFor id)
  minFinalPrefillChunkSize : ∀ id, Along R (hooks.minFinalPrefillChunkSize id)
  prefillStepReservationCost : ∀ id tokens, Along R (hooks.prefillStepReservationCost id tokens)
  decodeStepFreeSlots : Along R hooks.decodeStepFreeSlots
  decodeStepFreeSlotsFor : ∀ id, Along R (hooks.decodeStepFreeSlotsFor id)
  decodeStepReservationCost : ∀ id, Along R (hooks.decodeStepReservationCost id)
  stepAllocationBudgets : ∀ isPrefill, Along R (hooks.stepAllocationBudgets isPrefill)
  stepAllocationCosts : ∀ id tokens, Along R (hooks.stepAllocationCosts id tokens)
  promptAdmissionFreeSlots : Along R hooks.promptAdmissionFreeSlots
  promptAdmissionBudgets : ∀ waiting chunk, Along R (hooks.promptAdmissionBudgets waiting chunk)
  promptAdmissionCosts : ∀ id, Along R (hooks.promptAdmissionCosts id)
  promptAdmissionSharedCosts : ∀ id, Along R (hooks.promptAdmissionSharedCosts id)
  promptLogicalReservationCost : ∀ id, Along R (hooks.promptLogicalReservationCost id)
  promptAdmissionFailureAction : Along R hooks.promptAdmissionFailureAction
  onPromptAdmitted : ∀ id budgets, Along R (hooks.onPromptAdmitted id budgets)
  clearPrefixCacheHit : ∀ id, Along R (hooks.clearPrefixCacheHit id)
  enterCapacitySnapshot : Along R hooks.enterCapacitySnapshot
  exitCapacitySnapshot : Along R hooks.exitCapacitySnapshot
  freeSlotStats : Along R hooks.freeSlotStats
  debugLiveSeqSlots : Along R hooks.debugLiveSeqSlots
  prefixCacheHitRefresher : ∀ id, Along R (hooks.prefixCacheHitRefresher id)
  prefixCacheHitsRefresher : ∀ refresh ∈ hooks.prefixCacheHitsRefresher, ∀ ids, Along R (refresh ids)
  decodeCapacityReclaimer : ∀ reclaim ∈ hooks.decodeCapacityReclaimer, ∀ id decoding waiting,
    Along R (reclaim id decoding waiting)
  prefillCapacityReclaimer : ∀ reclaim ∈ hooks.prefillCapacityReclaimer, ∀ id waiting,
    Along R (reclaim id waiting)

theorem MemoryOracle.frames_true (hooks : MemoryOracle ω κ ρ) : hooks.Frames fun _ _ => True := by
  constructor <;> intros <;> exact fun _ => trivial

structure CandidateUpdates (R : OracleWorld ω → OracleWorld ω → Prop) : Prop where
  chunk : ∀ chunk id (s : SchedulerState ω),
    R s.world (SchedulerState.updateSeq id (Sequence.setChunk chunk) s).world
  adopt : ∀ id (s : SchedulerState ω), R s.world (SchedulerState.updateSeq id Sequence.adoptHit s).world
  running : ∀ id (s : SchedulerState ω),
    R s.world (SchedulerState.updateSeq id (fun seq => { seq with status := .running }) s).world

theorem candidateUpdates_true : CandidateUpdates fun _ _ : OracleWorld ω => True :=
  ⟨fun _ _ _ => trivial, fun _ _ => trivial, fun _ _ => trivial⟩

namespace SchedulerState

/-- The queues are as before and the world moved along `R`. -/
structure Still (R : OracleWorld ω → OracleWorld ω → Prop) (s s' : SchedulerState ω) : Prop where
  waiting : s'.waiting = s.waiting
  decoding : s'.decoding = s.decoding
  world : R s.world s'.world

variable {R : OracleWorld ω → OracleWorld ω → Prop} [Std.Refl R] [IsTrans (OracleWorld ω) R]

instance : Std.Refl (Still R) := ⟨fun s => ⟨rfl, rfl, refl s.world⟩⟩

instance : IsTrans (SchedulerState ω) (Still R) where
  trans _ _ _ h h' := ⟨h'.waiting.trans h.waiting, h'.decoding.trans h.decoding,
    IsTrans.trans _ _ _ h.world h'.world⟩

omit [Std.Refl R] [IsTrans (OracleWorld ω) R] in
theorem hook_still {α : Type} {m : PyM (OracleWorld ω) α} (h : Along R m) :
    Along (Still R) (hook m) :=
  along_zoom h fun _ _ moved => ⟨rfl, rfl, moved⟩

variable {cfg : SchedulerConfig} {hooks : MemoryOracle ω κ ρ}

theorem debugHook_still {α : Type} {m : PyM (OracleWorld ω) α} (h : Along R m) :
    Along (Still R) (debugHook cfg m) :=
  along_ite (along_bind (hook_still h) fun _ => along_pure _) (along_pure _)

theorem prefillBatchKey_still (frames : hooks.Frames R) (id : Nat) :
    Along (Still R) (prefillBatchKey hooks id) :=
  along_bind (hook_still (frames.prefillExecutionMode id)) fun _ =>
    along_bind (hook_still (frames.prefillBatchCompatibilityKey id)) fun _ => along_pure _

theorem refreshPrefixHits_still (frames : hooks.Frames R) (candidates : List Nat) :
    Along (Still R) (refreshPrefixHits hooks candidates) := by
  refine along_bind along_get fun s => ?_
  dsimp only
  split
  · exact along_pure _
  · next refresh present =>
    refine along_ite (along_pure _) (hook_still ?_)
    exact frames.prefixCacheHitsRefresher refresh present _

theorem refreshPrefillMetadata_still (frames : hooks.Frames R) (id : Nat) :
    Along (Still R) (refreshPrefillMetadata hooks id) :=
  along_bind along_get fun _ =>
    along_ite (hook_still (frames.prefixCacheHitRefresher id)) (along_pure _)

variable [DecidableEq κ]

theorem collectModes_still (frames : hooks.Frames R) (pending : Bool) :
    ∀ (candidates : List Nat) (modes : List (PrefillBucket κ)),
      Along (Still R) (collectModes hooks pending candidates modes)
  | [], _ => along_pure _
  | id :: candidates, _ =>
    along_bind (refreshPrefillMetadata_still frames id) fun _ =>
      along_bind along_get fun _ =>
        along_bind (prefillBatchKey_still frames id) fun _ =>
          collectModes_still frames pending candidates _

theorem prefillModeOrder_still (frames : hooks.Frames R) :
    Along (Still R) (prefillModeOrder cfg hooks) :=
  along_bind along_get fun _ =>
    along_bind (refreshPrefixHits_still frames _) fun _ =>
      along_bind along_get fun _ => collectModes_still frames _ _ _

omit [DecidableEq κ]

section

variable (costs : ∀ id tokens, Along R (hooks.stepAllocationCosts id tokens))
include costs

theorem fitsBudgets_still (id : Nat) (budgets : Budgets) (tokens : Int) :
    Along (Still R) (fitsBudgets hooks id budgets tokens) :=
  along_bind (hook_still (costs id tokens)) fun _ => along_pure _

theorem searchBudgets_still (id : Nat) (budgets : Budgets) (low high : Int) :
    Along (Still R) (searchBudgets hooks id budgets low high) := by
  rw [searchBudgets]
  split
  · exact along_bind (fitsBudgets_still costs id budgets _) fun _ =>
      along_ite (searchBudgets_still id budgets _ _) (searchBudgets_still id budgets _ _)
  · exact along_pure _
termination_by (high - low).toNat
decreasing_by all_goals omega

theorem maxStepAllocationTokens_still (id : Nat) (limit : Int) :
    ∀ budgets, Along (Still R) (maxStepAllocationTokens hooks id limit budgets)
  | none => along_pure _
  | some budgets =>
    along_ite (along_pure _) (along_bind (fitsBudgets_still costs id budgets limit) fun _ =>
      along_ite (along_pure _) (searchBudgets_still costs id budgets 0 limit))

end

theorem chargeStepAllocations_still (frames : hooks.Frames R) (id : Nat) (tokens : Int) :
    ∀ budgets, Along (Still R) (chargeStepAllocations hooks id tokens budgets)
  | none => along_pure _
  | some _ =>
    along_bind (hook_still (frames.stepAllocationCosts id tokens)) fun _ =>
      along_bind (along_lift _) fun _ => along_pure _

theorem decodeBlocked_still (frames : hooks.Frames R) (id : Nat) (free cost : Int)
    (budgets : Option Budgets) : Along (Still R) (decodeBlocked hooks id free cost budgets) :=
  along_ite (along_pure _)
    (along_bind (maxStepAllocationTokens_still frames.stepAllocationCosts id 1 budgets) fun _ => along_pure _)

theorem eligibleDecodeLoop_picks (frames : hooks.Frames R) :
    ∀ (queue : List Nat) (free : Int) (budgets : Option Budgets) (batch : List Nat)
      (s : SchedulerState ω),
      wp (eligibleDecodeLoop cfg hooks queue free budgets batch)
        (fun result s' => Still R s s' ∧ ∃ more, result = batch ++ more ∧ more.Sublist queue)
        (fun _ s' => Still R s s') s
  | [], _, _, batch, s => ⟨refl s, [], by simp, List.nil_sublist _⟩
  | id :: rest, free, budgets, batch, s => by
    have skip : ∀ (free : Int) (budgets : Option Budgets) (s' : SchedulerState ω), Still R s s' →
        wp (eligibleDecodeLoop cfg hooks rest free budgets batch)
          (fun result s'' => Still R s s'' ∧ ∃ more, result = batch ++ more ∧
            more.Sublist (id :: rest))
          (fun _ s'' => Still R s s'') s' := by
      intro free budgets s' still
      refine wp_mono (eligibleDecodeLoop_picks frames rest free budgets batch s') ?_
        fun _ _ later => IsTrans.trans _ _ _ still later
      rintro result s'' ⟨later, more, picked, inside⟩
      exact ⟨IsTrans.trans _ _ _ still later, more, picked, inside.cons id⟩
    rw [eligibleDecodeLoop, wp_bind, wp_get, wp_ite]
    split
    · exact skip _ _ _ (refl s)
    · simp only [wp_bind, wp_ite]
      refine (hook_still (frames.decodeStepReservationCost id)).wp (fun cost s₁ h₁ => ?_)
        fun _ _ h => h
      refine (hook_still (frames.decodeStepFreeSlotsFor id)).wp (fun own s₂ h₂ => ?_)
        fun _ _ h => IsTrans.trans _ _ _ h₁ h
      have h₂ := IsTrans.trans _ _ _ h₁ h₂
      refine (decodeBlocked_still frames id _ cost budgets).wp (fun blocked s₃ h₃ => ?_)
        fun _ _ h => IsTrans.trans _ _ _ h₂ h
      have h₃ := IsTrans.trans _ _ _ h₂ h₃
      split
      · split
        · exact ⟨h₃, [], by simp, List.nil_sublist _⟩
        · exact skip _ _ _ h₃
      · refine (chargeStepAllocations_still frames id 1 budgets).wp (fun budgets s₄ h₄ => ?_)
          fun _ _ h => IsTrans.trans _ _ _ h₃ h
        have h₄ := IsTrans.trans _ _ _ h₃ h₄
        split
        · exact ⟨h₄, [id], rfl, by simp⟩
        · refine wp_mono (eligibleDecodeLoop_picks frames rest _ _ _ s₄) ?_
            fun _ _ later => IsTrans.trans _ _ _ h₄ later
          rintro result s₅ ⟨later, more, picked, inside⟩
          exact ⟨IsTrans.trans _ _ _ h₄ later, id :: more, by simp [picked], inside.cons_cons id⟩

theorem eligibleDecodeBatch_picks (frames : hooks.Frames R) (s : SchedulerState ω) :
    wp (eligibleDecodeBatch cfg hooks)
      (fun result s' => Still R s s' ∧ result.Sublist s.decoding) (fun _ s' => Still R s s') s := by
  rw [eligibleDecodeBatch, wp_bind, wp_get, wp_ite]
  split
  · exact ⟨refl s, List.nil_sublist _⟩
  · simp only [wp_bind]
    refine (hook_still frames.decodeStepFreeSlots).wp (fun free s₁ h₁ => ?_) fun _ _ h => h
    refine (hook_still (frames.stepAllocationBudgets false)).wp (fun budgets s₂ h₂ => ?_)
      fun _ _ h => IsTrans.trans _ _ _ h₁ h
    have h₂ := IsTrans.trans _ _ _ h₁ h₂
    refine wp_mono (eligibleDecodeLoop_picks frames s.decoding _ budgets [] s₂) ?_
      fun _ _ later => IsTrans.trans _ _ _ h₂ later
    rintro result s₃ ⟨later, more, rfl, inside⟩
    exact ⟨IsTrans.trans _ _ _ h₂ later, by simpa using inside⟩

theorem reservedPrefillTokens_still (frames : hooks.Frames R) :
    Along (Still R) (reservedPrefillTokens cfg hooks) :=
  along_bind along_get fun _ => hook_still (frames.reservedPrefillSlots _ _)

theorem reclaimDecodeCapacity_still {reclaim : Nat → List Nat → List Nat → PyM (OracleWorld ω) (Option Nat)}
    (frames : ∀ id decoding waiting, Along R (reclaim id decoding waiting)) (failure : Nat) :
    Along (Still R) (reclaimDecodeCapacity reclaim failure) :=
  along_bind along_get fun _ =>
    along_bind (along_raiseIf _ _) fun _ => hook_still (frames failure _ _)

theorem respectMinFinalPrefillChunk_still (frames : hooks.Frames R) (id : Nat)
    (remaining proposed : Int) :
    Along (Still R) (respectMinFinalPrefillChunk hooks id remaining proposed) :=
  along_bind (hook_still (frames.minFinalPrefillChunkSize id)) fun _ =>
    along_bind (along_raiseIf _ _) fun _ => along_pure _

theorem candidateFreeCount_still (frames : hooks.Frames R) (mode : Scheduler.PrefillExecution)
    (free : Int) (id : Nat) (own : Int) (staging : Bool) :
    Along (Still R) (candidateFreeCount hooks mode free id own staging) :=
  along_ite (along_bind (hook_still (frames.prefillPrivateSlotsFor id)) fun _ => along_pure _)
    (along_pure _)

theorem candidateChunk_still (frames : hooks.Frames R) (mode : Scheduler.PrefillExecution)
    (l : PrefillLocals ρ) (id : Nat) : Along (Still R) (candidateChunk cfg hooks mode l id) :=
  along_bind (hook_still (frames.remainingPrefillTokens id)) fun _ =>
    along_bind (hook_still (frames.prefillStepFreeSlotsFor id)) fun _ =>
      along_bind (hook_still (frames.shouldScheduleFullPrefill id)) fun _ =>
        along_bind (candidateFreeCount_still frames mode _ id _ _) fun _ =>
          along_bind (along_raiseIf _ _) fun _ =>
            along_bind along_get fun _ =>
              along_bind (maxStepAllocationTokens_still frames.stepAllocationCosts id _ _) fun _ =>
                along_bind (respectMinFinalPrefillChunk_still frames id _ _) fun _ => along_pure _

theorem debugDeferred_still (frames : hooks.Frames R) (id : Nat) :
    Along (Still R) (debugDeferred cfg hooks id) :=
  along_bind along_get fun _ =>
    along_ite (debugHook_still frames.debugLiveSeqSlots) (along_pure _)

theorem acceptCandidate_still (frames : hooks.Frames R) (updates : CandidateUpdates R)
    (l : PrefillLocals ρ) (id : Nat) (chunk : Int) :
    Along (Still R) (acceptCandidate hooks l id chunk) :=
  along_bind (along_modify fun s => ⟨rfl, rfl, updates.chunk chunk id s⟩) fun _ =>
    along_bind (hook_still (frames.prefillStepReservationCost id chunk)) fun _ =>
      along_bind (chargeStepAllocations_still frames id chunk _) fun _ =>
        along_bind (along_modify fun s => ⟨rfl, rfl, updates.running id s⟩) fun _ => along_pure _

theorem admitPrompt_still [DecidableEq ρ] (frames : hooks.Frames R) (updates : CandidateUpdates R)
    (l : PrefillLocals ρ) (id : Nat) (raw costs : Budgets) (shared : List (String × List (ρ × Int))) :
    Along (Still R) (admitPrompt hooks l id raw costs shared) :=
  along_bind (along_modify fun s => ⟨rfl, rfl, updates.running id s⟩) fun _ =>
    along_bind (hook_still (frames.onPromptAdmitted id raw)) fun _ =>
      along_bind (along_modify fun s => ⟨rfl, rfl, updates.adopt id s⟩) fun _ =>
        along_bind (hook_still (frames.promptLogicalReservationCost id)) fun _ =>
          along_bind (along_raiseIf _ _) fun _ => along_pure _

theorem reserveWindows_still (frames : hooks.Frames R) (flags : ReclaimFlags) :
    Along (Still R) (reserveWindows hooks flags) := by
  refine along_bind along_get fun _ =>
    along_bind (hook_still (frames.reserveDecodeWindows _ _)) fun failure => ?_
  split
  · next reclaim present =>
    exact along_bind (reclaimDecodeCapacity_still
      (fun id _ _ => frames.decodeCapacityReclaimer _ present id _ _) _) fun _ => along_pure _
  · exact along_pure _

theorem findOverdue_still : Along (Still R) (findOverdue cfg hooks) :=
  along_ite (along_bind (along_modify fun s => ⟨rfl, rfl, refl s.world⟩) fun _ => along_pure _)
    (along_bind along_get fun _ =>
      along_bind (along_modify fun s => ⟨rfl, rfl, refl s.world⟩) fun _ => along_pure _)

theorem affinityBatch_picks (frames : hooks.Frames R) (overdue failed : Bool)
    (s : SchedulerState ω) :
    wp (affinityBatch cfg hooks overdue failed)
      (fun result s' => Still R s s' ∧ ∀ batch ∈ result, batch.Sublist s.decoding)
      (fun _ s' => Still R s s') s := by
  rw [affinityBatch, wp_bind, wp_get, wp_ite]
  split
  · exact ⟨refl s, nofun⟩
  · rw [wp_bind]
    refine wp_mono (eligibleDecodeBatch_picks frames s) ?_ fun _ _ h => h
    rintro batch s₁ ⟨still, inside⟩
    rw [wp_ite]
    split
    · refine ⟨⟨still.waiting, still.decoding, still.world⟩, ?_⟩
      rintro batch ⟨⟩
      exact inside
    · exact ⟨still, nofun⟩

theorem prefillCounters_still (frames : hooks.Frames R) (free : Int) :
    Along (Still R) (prefillCounters cfg hooks free) :=
  along_bind along_get fun _ =>
    along_ite (along_pure _)
      (along_bind (reservedPrefillTokens_still frames) fun _ =>
        along_bind (hook_still frames.promptAdmissionFreeSlots) fun _ =>
          along_bind (hook_still frames.prefillStepFreeSlots) fun _ =>
            along_bind (hook_still (frames.promptAdmissionBudgets _ _)) fun _ =>
              along_bind (hook_still frames.prefillBatchedTokensMargin) fun _ => along_pure _)

theorem prefillAllocationBudgets_still (frames : hooks.Frames R) :
    Along (Still R) (prefillAllocationBudgets hooks) :=
  along_bind along_get fun _ =>
    along_ite (along_pure _) (hook_still (frames.stepAllocationBudgets true))

theorem raiseStuck_still (frames : hooks.Frames R) (l : PrefillLocals ρ) :
    Along (Still R) (raiseStuck cfg hooks l) :=
  along_bind along_get fun _ =>
    along_bind (along_raiseIf _ _) fun _ =>
      along_bind (along_raiseIf _ _) fun _ =>
        along_bind (along_raiseIf _ _) fun _ =>
          along_ite
            (along_bind (debugHook_still frames.debugLiveSeqSlots) fun _ => along_raise _)
            (along_pure _)

theorem reclaimPrefill_still (frames : hooks.Frames R) (flags : ReclaimFlags) (l : PrefillLocals ρ) :
    Along (Still R) (reclaimPrefill hooks flags l) := by
  refine along_bind along_get fun s => ?_
  split
  · next reclaim _ _ present _ =>
    exact along_ite
      (along_bind (along_raiseIf _ _) fun _ =>
        hook_still (frames.prefillCapacityReclaimer _ present _ _))
      (along_pure _)
  · exact along_pure _

theorem reclaimBlocked_still (frames : hooks.Frames R) (decode : Bool) (id : Nat) :
    Along (Still R) (reclaimBlocked hooks decode id) := by
  unfold reclaimBlocked
  split
  · next reclaim present =>
    exact along_bind (reclaimDecodeCapacity_still
      (fun id _ _ => frames.decodeCapacityReclaimer _ present id _ _) _) fun _ => along_pure _
  · exact along_pure _

end SchedulerState

end SparseEngine
