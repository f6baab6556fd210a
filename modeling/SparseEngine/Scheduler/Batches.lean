import SparseEngine.Scheduler.Mirror
import SparseEngine.Scheduler.ReplayBound

/-! How large a prefill batch is and where its chunks end. -/

namespace SparseEngine

open PyM List Function Sequence

variable {ω κ ρ : Type}

def Sequence.Started (seq : Sequence) : Prop :=
  seq.numPrefilledTokens ≠ 0 → seq.prefixCacheHitLen ≤ seq.numPrefilledTokens

def SameSeqs (w w' : OracleWorld ω) : Prop := w'.seqs = w.seqs

instance : Std.Refl (SameSeqs (ω := ω)) := ⟨fun _ => rfl⟩

instance : IsTrans (OracleWorld ω) SameSeqs := ⟨fun _ _ _ h h' => Eq.trans h' h⟩

def KeepsStarted (w w' : OracleWorld ω) : Prop := ∀ id, (w.seqs id).Started → (w'.seqs id).Started

instance : Std.Refl (KeepsStarted (ω := ω)) := ⟨fun _ _ h => h⟩

instance : IsTrans (OracleWorld ω) KeepsStarted :=
  ⟨fun _ _ _ h h' id started => h' id (h id started)⟩

def MemoryOracle.queries (hooks : MemoryOracle ω κ ρ) : MemoryOracle ω κ ρ :=
  { hooks with
    clearPrefixCacheHit := fun _ => pure ()
    prefixCacheHitRefresher := fun _ => pure ()
    prefixCacheHitsRefresher := none
    decodeCapacityReclaimer := none
    prefillCapacityReclaimer := none }

structure MemoryOracle.Reports (hooks : MemoryOracle ω κ ρ) : Prop where
  progress : hooks.Frames SameProgress
  started : hooks.Frames KeepsStarted
  queries : hooks.queries.Frames SameSeqs
  remaining : ∀ id w r, (hooks.remainingPrefillTokens id w).1 = .ok r →
    r = (w.seqs id).remainingPrefillTokens

namespace Scheduler

theorem prefillStepTokens_bounds {x : ChunkInputs} {free : Int}
    (pos : 0 < prefillStepTokens x free) :
    prefillStepTokens x free ≤ x.remainingPrefillTokens ∧
      prefillStepTokens x free ≤ x.prefillStageRemaining ∧
      x.numBatchedTokens + prefillStepTokens x free ≤ x.maxNumBatchedTokens := by
  revert pos
  unfold prefillStepTokens
  cases x.mode with
  | full =>
    dsimp only
    split <;> omega
  | chunked =>
    dsimp only
    omega
  | rawOffload =>
    dsimp only
    omega

theorem chunk_bounds {x : ChunkInputs} {free allocation proposed : Int} {minFinal : Nat}
    (within : allocation ≤ prefillStepTokens x free)
    (clamped : proposed = allocation ∨ proposed = 0 ∨ proposed = prefillStepTokens x free)
    (pos : 0 < respectMinFinalPrefillChunk minFinal x.remainingPrefillTokens proposed) :
    let chunk := respectMinFinalPrefillChunk minFinal x.remainingPrefillTokens proposed
    x.numBatchedTokens + chunk ≤ x.maxNumBatchedTokens ∧ chunk ≤ x.remainingPrefillTokens ∧
      chunk ≤ x.prefillStageRemaining ∧
      (chunk = x.remainingPrefillTokens ∨ (minFinal : Int) ≤ x.remainingPrefillTokens - chunk) := by
  -- the last clamp only lowers the chunk, which is positive, so the earlier clamps hold of it
  have le : respectMinFinalPrefillChunk minFinal x.remainingPrefillTokens proposed ≤ proposed := by
    revert pos
    unfold respectMinFinalPrefillChunk
    split <;> omega
  obtain ⟨remaining, stage, tokens⟩ : proposed ≤ x.remainingPrefillTokens ∧
      proposed ≤ x.prefillStageRemaining ∧
      x.numBatchedTokens + proposed ≤ x.maxNumBatchedTokens := by
    have bounds := prefillStepTokens_bounds (show 0 < prefillStepTokens x free by omega)
    omega
  refine ⟨by omega, by omega, by omega, ?_⟩
  revert pos
  unfold respectMinFinalPrefillChunk
  split <;> omega

end Scheduler

variable {seq : Sequence}

theorem Sequence.Started.remaining (started : seq.Started) (chunk : Int) :
    seq.remainingPrefillTokens =
      seq.numPromptTokens - (seq.scheduled chunk).numPrefilledTokens := by
  unfold Started at started
  simp only [remainingPrefillTokens, Sequence.scheduled, setChunk]
  split
  · rw [adoptHit]
    split
    · dsimp only
      omega
    · omega
  · next partly =>
    have := started partly
    omega

theorem Sequence.Started.adopted (started : seq.Started) (chunk : Int) :
    (seq.scheduled chunk).Started := by
  unfold Started at started ⊢
  simp only [Sequence.scheduled, setChunk]
  split
  · rw [adoptHit]
    split
    · exact fun _ => le_rfl
    · next empty _ => exact fun some => absurd empty some
  · exact started

theorem Sequence.scheduled_fields (seq : Sequence) (chunk : Int) :
    (seq.scheduled chunk).numPromptTokens = seq.numPromptTokens ∧
      (seq.scheduled chunk).contextLength = seq.contextLength ∧
      (seq.scheduled chunk).currentChunkSize = some chunk := by
  simp only [Sequence.scheduled, setChunk, adoptHit]
  split_ifs <;> simp

theorem Sequence.scheduled_fresh (fresh : seq.numPrefilledTokens = 0) (chunk : Int) :
    { (adoptHit { seq with status := .running }).setChunk chunk with status := .running } =
      seq.scheduled chunk := by
  rw [Sequence.scheduled, if_pos fresh, adoptHit, adoptHit]
  split <;> rfl

theorem Sequence.scheduled_context {n chunk : Int} (here : n ∈ seq.contextLength)
    (stage : chunk ≤ seq.prefillStageRemaining) :
    n ≤ (seq.scheduled chunk).numPrefilledTokens ∨
      (seq.scheduled chunk).numPrefilledTokens + chunk ≤ n ∨
      (seq.numPrefilledTokens = 0 ∧ 0 < seq.prefixCacheHitLen ∧ seq.prefixCacheHitLen < n ∧
        chunk ≤ n) := by
  have context : seq.contextLength = some n := here
  simp only [prefillStageRemaining, context] at stage
  simp only [Sequence.scheduled, setChunk, adoptHit]
  split_ifs at stage ⊢ <;> try dsimp only
  all_goals omega

namespace SchedulerState

variable {cfg : SchedulerConfig} {hooks : MemoryOracle ω κ ρ}
  {R : OracleWorld ω → OracleWorld ω → Prop}

theorem wp_next {σ α : Type} {m : PyM σ α} {Q Q' : α → σ → Prop} {E : PyError → σ → Prop} {s : σ}
    (h : wp m Q E s) (next : ∀ a s', Q a s' → Q' a s') : wp m Q' (fun _ _ => True) s :=
  wp_mono h next fun _ _ _ => trivial

theorem still_next {α : Type} {m : SchedM ω α} {Q : α → SchedulerState ω → Prop}
    {s : SchedulerState ω} (h : Along (Still R) m) (next : ∀ a s', Still R s s' → Q a s') :
    wp m Q (fun _ _ => True) s :=
  h.wp next fun _ _ _ => trivial

theorem hook_answers {α : Type} {m : PyM (OracleWorld ω) α} (h : Along R m) (s : SchedulerState ω) :
    wp (hook m) (fun a s' => (m s.world).1 = .ok a ∧ Still R s s') (fun _ _ => True) s := by
  have answer : wp m (fun a _ => (m s.world).1 = .ok a) (fun _ _ => True) s.world := by
    unfold wp
    split <;> next run => simp [run]
  have answered : wp (hook m) (fun a _ => (m s.world).1 = .ok a) (fun _ _ => True) s := by
    rw [hook, wp_zoom]
    exact answer
  have still := (hook_still h).wp (s := s) (Q := fun _ => Still R s) (E := fun _ _ => True)
    (fun _ _ h => h) fun _ _ _ => trivial
  exact wp_mono (wp_and answered still) (fun _ _ h => h) fun _ _ _ => trivial

/-- The chunk of a candidate fits. -/
structure Fits (cfg : SchedulerConfig) (hooks : MemoryOracle ω κ ρ) (batched : Int) (id : Nat)
    (seq : Sequence) (chunk : Int) : Prop where
  pos : 0 < chunk
  tokens : batched + chunk ≤ cfg.maxNumBatchedTokens
  remaining : chunk ≤ seq.remainingPrefillTokens
  stage : chunk ≤ seq.prefillStageRemaining
  final : ∃ w minFinal, w.seqs id = seq ∧ (hooks.minFinalPrefillChunkSize id w).1 = .ok minFinal ∧
    (chunk = seq.remainingPrefillTokens ∨ minFinal ≤ seq.remainingPrefillTokens - chunk)

theorem searchBudgets_le (id : Nat) (budgets : Budgets) (low high : Int) (ordered : low ≤ high)
    (s : SchedulerState ω) :
    wp (searchBudgets hooks id budgets low high) (fun n _ => n ≤ high) (fun _ _ => True) s := by
  rw [searchBudgets]
  split
  · rw [wp_bind]
    refine wp_of_forall (fun fits s₁ => ?_) fun _ _ => trivial
    rw [wp_ite]
    split
    · exact searchBudgets_le id budgets _ high (by omega) s₁
    · exact wp_mono (searchBudgets_le id budgets low _ (by omega) s₁) (fun n _ within => by omega)
        fun _ _ _ => trivial
  · exact ordered
termination_by (high - low).toNat
decreasing_by all_goals omega

section

variable (h : hooks.Reports)
include h

theorem maxStepAllocationTokens_le (id : Nat) (limit : Int)
    (budgets : Option Budgets) (s : SchedulerState ω) :
    wp (maxStepAllocationTokens hooks id limit budgets)
      (fun n s' => n ≤ limit ∧ Still SameSeqs s s') (fun _ _ => True) s := by
  have within : wp (maxStepAllocationTokens hooks id limit budgets) (fun n _ => n ≤ limit)
      (fun _ _ => True) s := by
    cases budgets with
    | none => exact le_refl limit
    | some budgets =>
      rw [maxStepAllocationTokens, wp_ite]
      split
      · exact le_refl limit
      · next pos =>
        rw [wp_bind]
        refine wp_of_forall (fun fits s₁ => ?_) fun _ _ => trivial
        rw [wp_ite]
        split
        · exact le_refl limit
        · exact searchBudgets_le id budgets 0 limit (by omega) s₁
  have costs : ∀ id tokens, Along SameSeqs (hooks.stepAllocationCosts id tokens) :=
    h.queries.stepAllocationCosts
  have still := (maxStepAllocationTokens_still costs id limit budgets).wp (s := s)
    (Q := fun _ => Still SameSeqs s) (E := fun _ _ => True) (fun _ _ h => h)
    fun _ _ _ => trivial
  exact wp_mono (wp_and within still) (fun _ _ h => h) fun _ _ _ => trivial

theorem candidateChunk_fits (mode : Scheduler.PrefillExecution)
    (l : PrefillLocals ρ) (id : Nat) (s : SchedulerState ω) :
    wp (candidateChunk cfg hooks mode l id)
      (fun c s' => Still SameSeqs s s' ∧
        (0 < c.chunk → Fits cfg hooks l.numBatchedTokens id (s.seqAt id) c.chunk))
      (fun _ _ => True) s := by
  simp only [candidateChunk, wp_bind, wp_get, wp_pure]
  refine wp_next (hook_answers (h.queries.remainingPrefillTokens id) s) ?_
  rintro remaining s₁ ⟨answer, same₁⟩
  have reported := h.remaining id s.world remaining answer
  refine still_next (hook_still (h.queries.prefillStepFreeSlotsFor id)) fun own s₂ same₂ => ?_
  refine still_next (hook_still (h.queries.shouldScheduleFullPrefill id)) fun staging s₃ same₃ => ?_
  refine still_next (candidateFreeCount_still h.queries mode _ id own staging)
    fun free s₄ same₄ => ?_
  have same₄ : Still SameSeqs s s₄ :=
    IsTrans.trans _ _ _ same₁ (IsTrans.trans _ _ _ same₂ (IsTrans.trans _ _ _ same₃ same₄))
  rw [wp_raiseIf]
  refine ⟨fun _ => trivial, fun _ => ?_⟩
  refine wp_next (maxStepAllocationTokens_le h id _ _ s₄) ?_
  rintro allocation s₅ ⟨within, same₅⟩
  have same₅ := IsTrans.trans _ _ _ same₄ same₅
  simp only [respectMinFinalPrefillChunk, wp_bind, wp_raiseIf, wp_pure]
  refine wp_next (hook_answers (h.queries.minFinalPrefillChunkSize id) s₅) ?_
  rintro minFinal s₆ ⟨answered, same₆⟩
  refine ⟨fun _ => trivial, fun valid => ⟨IsTrans.trans _ _ _ same₅ same₆, fun pos => ?_⟩⟩
  have here₄ : s₄.seqAt id = s.seqAt id := congrFun same₄.world id
  have here₅ : s₅.world.seqs id = s.seqAt id := congrFun same₅.world id
  obtain ⟨tokens, within_prompt, stage, final⟩ := Scheduler.chunk_bounds within
    (by split_ifs <;> simp) pos
  rw [Int.toNat_of_nonneg (not_lt.mp valid)] at final
  subst reported
  exact ⟨pos, tokens, within_prompt, here₄ ▸ stage, s₅.world, minFinal, here₅, answered, final⟩

theorem acceptCandidate_fills (l : PrefillLocals ρ) (id : Nat) (chunk : Int)
    (s : SchedulerState ω) :
    wp (acceptCandidate hooks l id chunk)
      (fun l' s' => l'.numBatchedSeqs = l.numBatchedSeqs + 1 ∧
        l'.numBatchedTokens = l.numBatchedTokens + chunk ∧
        s'.world.seqs = Function.update s.world.seqs id
          { (s.seqAt id).setChunk chunk with status := .running })
      (fun _ _ => True) s := by
  simp only [acceptCandidate, wp_bind, wp_modify, wp_pure]
  refine still_next (hook_still (h.queries.prefillStepReservationCost id chunk))
    fun cost s₁ same₁ => ?_
  refine still_next (chargeStepAllocations_still h.queries id chunk _) fun budgets s₂ same₂ => ?_
  have same : s₂.world.seqs = Function.update s.world.seqs id ((s.seqAt id).setChunk chunk) :=
    Eq.trans same₂.world same₁.world
  refine ⟨trivial, trivial, ?_⟩
  show Function.update s₂.world.seqs id { s₂.world.seqs id with status := .running } = _
  rw [same, update_idem, update_self]

theorem admitPrompt_fills [DecidableEq ρ] (l : PrefillLocals ρ) (id : Nat)
    (raw costs : Budgets) (shared : List (String × List (ρ × Int))) (s : SchedulerState ω) :
    wp (admitPrompt hooks l id raw costs shared)
      (fun l' s' => l'.numBatchedSeqs = l.numBatchedSeqs ∧
        l'.numBatchedTokens = l.numBatchedTokens ∧
        s'.world.seqs = Function.update s.world.seqs id
          (adoptHit { s.seqAt id with status := .running }))
      (fun _ _ => True) s := by
  simp only [admitPrompt, wp_bind, wp_modify, wp_raiseIf, wp_pure]
  refine still_next (hook_still (h.queries.onPromptAdmitted id raw)) fun _ s₁ same₁ => ?_
  refine still_next (hook_still (h.queries.promptLogicalReservationCost id))
    fun logical s₂ same₂ => ?_
  refine ⟨fun _ => trivial, fun _ => ⟨trivial, trivial, ?_⟩⟩
  have same₁ : s₁.world.seqs = Function.update s.world.seqs id
      { s.seqAt id with status := .running } := same₁.world
  have same₂ : s₂.world.seqs = Function.update s₁.world.seqs id
      (adoptHit (s₁.world.seqs id)) := same₂.world
  rw [same₂, same₁, update_idem, update_self]

def Filled (cfg : SchedulerConfig) (hooks : MemoryOracle ω κ ρ) (l : PrefillLocals ρ) (id : Nat)
    (s : SchedulerState ω) : CandidateOutcome ρ → SchedulerState ω → Prop
  | .requeued l', s' => l'.numBatchedSeqs = l.numBatchedSeqs ∧
      l'.numBatchedTokens = l.numBatchedTokens ∧ s'.world.seqs = s.world.seqs
  | .joined l', s' => ∃ chunk, Fits cfg hooks l.numBatchedTokens id (s.seqAt id) chunk ∧
      l'.numBatchedSeqs = l.numBatchedSeqs + 1 ∧
      l'.numBatchedTokens = l.numBatchedTokens + chunk ∧
      s'.world.seqs = Function.update s.world.seqs id ((s.seqAt id).scheduled chunk)

theorem failAdmission_fills (l : PrefillLocals ρ) (id : Nat)
    (s : SchedulerState ω) :
    wp (failAdmission cfg hooks l id) (fun l' => Filled cfg hooks l id s (.requeued l'))
      (fun _ _ => True) s := by
  rw [failAdmission, wp_bind]
  refine still_next (hook_still h.queries.promptAdmissionFailureAction) fun action s₁ same₁ => ?_
  rw [wp_ite]
  split
  · rw [wp_bind]
    refine still_next (debugDeferred_still h.queries id) fun _ s₂ same₂ => ?_
    exact ⟨rfl, rfl, Eq.trans same₂.world same₁.world⟩
  · trivial

theorem considerFresh_fills [DecidableEq ρ] (l : PrefillLocals ρ) (id : Nat)
    {chunk : Int} (s : SchedulerState ω) (fresh : (s.seqAt id).numPrefilledTokens = 0)
    (fits : Fits cfg hooks l.numBatchedTokens id (s.seqAt id) chunk) :
    wp (considerFresh cfg hooks l id chunk) (Filled cfg hooks l id s) (fun _ _ => True) s := by
  simp only [considerFresh, wp_bind]
  refine still_next (hook_still (h.queries.promptAdmissionCosts id)) fun raw s₁ same₁ => ?_
  refine still_next (hook_still (h.queries.promptAdmissionSharedCosts id)) fun shared s₂ same₂ => ?_
  have same₂ : s₂.world.seqs = s.world.seqs := Eq.trans same₂.world same₁.world
  rw [wp_lift]
  split
  · split
    · rw [wp_bind]
      refine wp_next (failAdmission_fills h l id s₂) ?_
      rintro l' s₃ ⟨seqs, tokens, same₃⟩
      exact ⟨seqs, tokens, same₃.trans same₂⟩
    · simp only [wp_bind]
      refine wp_next (admitPrompt_fills h l id raw _ _ s₂) ?_
      rintro l₁ s₃ ⟨seqs₁, tokens₁, same₃⟩
      refine wp_next (acceptCandidate_fills h l₁ id chunk s₃) ?_
      rintro l₂ s₄ ⟨seqs₂, tokens₂, same₄⟩
      refine ⟨chunk, fits, by rw [seqs₂, seqs₁], by rw [tokens₂, tokens₁], ?_⟩
      -- no hook moved the hit since the chunk was computed
      have here : s₃.seqAt id = adoptHit { s.seqAt id with status := .running } := by
        rw [seqAt, same₃, update_self, seqAt, same₂]
        rfl
      rw [same₄, here, same₃, update_idem, same₂, scheduled_fresh fresh]
  · trivial

theorem considerCandidate_fills [DecidableEq ρ]
    (mode : Scheduler.PrefillExecution) (l : PrefillLocals ρ) (id : Nat) (s : SchedulerState ω) :
    wp (considerCandidate cfg hooks mode l id) (Filled cfg hooks l id s) (fun _ _ => True) s := by
  simp only [considerCandidate, wp_bind, wp_get, wp_ite]
  refine wp_next (candidateChunk_fits h mode l id s) ?_
  rintro c s₁ ⟨same₁, fits⟩
  have same₁ : s₁.world.seqs = s.world.seqs := same₁.world
  have here : s₁.seqAt id = s.seqAt id := congrFun same₁ id
  split
  · simp only [rejectCandidate, wp_bind, wp_modify, wp_pure]
    refine still_next (hook_still (h.queries.minFinalPrefillChunkSize id))
      fun minFinal s₂ same₂ => ?_
    exact ⟨rfl, rfl, Eq.trans same₂.world same₁⟩
  · next some =>
    have fits := fits (not_le.mp some)
    rw [← here] at fits
    split
    · next fresh =>
      refine wp_next (considerFresh_fills h l id s₁ fresh fits) ?_
      rintro (l' | l') s₂ filled
      · exact ⟨filled.1, filled.2.1, filled.2.2.trans same₁⟩
      · rw [Filled, same₁, here] at filled
        exact filled
    · next partly =>
      refine wp_next (acceptCandidate_fills h l id c.chunk s₁) ?_
      rintro l' s₂ ⟨seqs, tokens, same₂⟩
      rw [here] at fits partly
      refine ⟨c.chunk, fits, seqs, tokens, ?_⟩
      rw [same₂, here, same₁, Sequence.scheduled, if_neg partly]

end

def Chosen (hooks : MemoryOracle ω κ ρ) (mode : Scheduler.PrefillExecution) (compatibility : κ)
    (id : Nat) (seq : Sequence) : Prop :=
  (∃ w, w.seqs id = seq ∧ (hooks.prefillExecutionMode id w).1 = .ok mode) ∧
    ∃ w, w.seqs id = seq ∧ (hooks.prefillBatchCompatibilityKey id w).1 = .ok compatibility

structure Member (hooks : MemoryOracle ω κ ρ) (mode : Scheduler.PrefillExecution)
    (compatibility : κ) (id : Nat) (before after : Sequence) (chunk : Int) : Prop where
  chosen : Chosen hooks mode compatibility id before
  moved : after = before.scheduled chunk
  pos : 0 < chunk
  prompt : after.numPrefilledTokens + chunk ≤ after.numPromptTokens
  final : ∃ w minFinal, w.seqs id = before ∧
    (hooks.minFinalPrefillChunkSize id w).1 = .ok minFinal ∧
    (after.numPrefilledTokens + chunk = after.numPromptTokens ∨
      minFinal ≤ after.numPromptTokens - (after.numPrefilledTokens + chunk))
  context : ∀ n ∈ after.contextLength, n ≤ after.numPrefilledTokens ∨
    after.numPrefilledTokens + chunk ≤ n ∨ (before.numPrefilledTokens = 0 ∧
      0 < before.prefixCacheHitLen ∧ before.prefixCacheHitLen < n ∧ chunk ≤ n)

/-- The batch so far is within every bound. -/
structure Loaded (cfg : SchedulerConfig) (hooks : MemoryOracle ω κ ρ) (bucket : PrefillBucket κ)
    (l : PrefillLocals ρ) (s : SchedulerState ω) : Prop where
  started : ∀ id, (s.seqAt id).Started
  chunks : l.numBatchedTokens =
    (l.scheduled.map fun id => (s.seqAt id).currentChunkSize.getD 0).sum
  tokens : l.scheduled ≠ [] → l.numBatchedTokens ≤ cfg.maxNumBatchedTokens
  seqs : l.numBatchedSeqs = l.scheduled.length
  count : (l.scheduled.length : Int) ≤ cfg.maxNumSeqsInBatch
  single : bucket.mode = .rawOffload → l.scheduled.length ≤ 1
  members : ∀ id ∈ l.scheduled, ∃ before chunk,
    Member hooks bucket.mode bucket.compatibility id before (s.seqAt id) chunk

variable {bucket : PrefillBucket κ} {pending : Bool} {s s' : SchedulerState ω}
  {l l' : PrefillLocals ρ}

theorem Loaded.same (h : Loaded cfg hooks bucket l s) (same : s'.world.seqs = s.world.seqs)
    (scheduled : l'.scheduled = l.scheduled) (seqs : l'.numBatchedSeqs = l.numBatchedSeqs)
    (tokens : l'.numBatchedTokens = l.numBatchedTokens) : Loaded cfg hooks bucket l' s' := by
  have at' : s'.seqAt = s.seqAt := same
  refine ⟨?_, ?_, ?_, ?_, ?_, ?_, ?_⟩
  · rw [at']; exact h.started
  · rw [tokens, scheduled, at']; exact h.chunks
  · rw [tokens, scheduled]; exact h.tokens
  · rw [seqs, scheduled]; exact h.seqs
  · rw [scheduled]; exact h.count
  · rw [scheduled]; exact h.single
  · rw [scheduled, at']; exact h.members

theorem Fits.member {id : Nat} {before : Sequence} {chunk batched : Int}
    {mode : Scheduler.PrefillExecution} {compatibility : κ}
    (h : Fits cfg hooks batched id before chunk) (started : before.Started)
    (chosen : Chosen hooks mode compatibility id before) :
    Member hooks mode compatibility id before (before.scheduled chunk) chunk := by
  have remaining := started.remaining chunk
  obtain ⟨prompt, context, -⟩ := before.scheduled_fields chunk
  have within := h.remaining
  obtain ⟨w, minFinal, here, answer, rest⟩ := h.final
  refine ⟨chosen, rfl, h.pos, by omega, ⟨w, minFinal, here, answer, ?_⟩,
    fun n here => ?_⟩
  · rcases rest with whole | left
    · exact .inl (by omega)
    · exact .inr (by omega)
  · rw [context] at here
    exact before.scheduled_context here h.stage

theorem Loaded.join (h : Loaded cfg hooks bucket l s) {id : Nat} {chunk : Int}
    (next : id ∉ l.scheduled)
    (chosen : Chosen hooks bucket.mode bucket.compatibility id (s.seqAt id))
    (room : (l.scheduled.length : Int) + 1 ≤ cfg.maxNumSeqsInBatch)
    (single : bucket.mode = .rawOffload → l.scheduled = [])
    (fits : Fits cfg hooks l.numBatchedTokens id (s.seqAt id) chunk)
    (scheduled : l'.scheduled = l.scheduled ++ [id])
    (seqs : l'.numBatchedSeqs = l.numBatchedSeqs + 1)
    (tokens : l'.numBatchedTokens = l.numBatchedTokens + chunk)
    (seqs' : s'.world.seqs = Function.update s.world.seqs id ((s.seqAt id).scheduled chunk)) :
    Loaded cfg hooks bucket l' s' := by
  have self : s'.seqAt id = (s.seqAt id).scheduled chunk := by
    rw [seqAt, seqs', update_self]
  have other : ∀ a, a ≠ id → s'.seqAt a = s.seqAt a := fun a differ => by
    rw [seqAt, seqs', update_of_ne differ]
    rfl
  have old : ∀ a ∈ l.scheduled, s'.seqAt a = s.seqAt a := fun a member =>
    other a fun same => next (same ▸ member)
  refine ⟨fun a => ?_, ?_, fun _ => ?_, ?_, ?_, fun raw => ?_, fun a member => ?_⟩
  · by_cases here : a = id
    · rw [here, self]
      exact (h.started id).adopted chunk
    · rw [other a here]
      exact h.started a
  · have kept : (l.scheduled.map fun a => (s'.seqAt a).currentChunkSize.getD 0) =
        l.scheduled.map fun a => (s.seqAt a).currentChunkSize.getD 0 :=
      map_congr_left fun a member => by rw [old a member]
    rw [tokens, scheduled, map_append, sum_append, h.chunks, kept]
    simp [self, (scheduled_fields _ chunk).2.2]
  · rw [tokens]
    exact fits.tokens
  · rw [seqs, scheduled, h.seqs]
    simp
  · rw [scheduled]
    simpa using room
  · rw [scheduled, single raw]
    simp
  · rw [scheduled, mem_append, mem_singleton] at member
    rcases member with member | rfl
    · rw [old a member]
      exact h.members a member
    · rw [self]
      exact ⟨s.seqAt a, chunk, fits.member (h.started a) chosen⟩

structure Between (cfg : SchedulerConfig) (hooks : MemoryOracle ω κ ρ) (l : PrefillLocals ρ)
    (s : SchedulerState ω) : Prop where
  empty : l.scheduled = [] → ∀ bucket, Loaded cfg hooks bucket l s
  full : l.scheduled ≠ [] → ∃ bucket, Loaded cfg hooks bucket l s

theorem Loaded.between (h : Loaded cfg hooks bucket l s) : Between cfg hooks l s where
  empty none other := by
    refine ⟨h.started, h.chunks, h.tokens, h.seqs, h.count, fun _ => ?_, fun id member => ?_⟩
    · rw [none]
      exact Nat.zero_le _
    · rw [none] at member
      cases member
  full _ := ⟨bucket, h⟩

theorem canContinue_room (positive : 1 ≤ cfg.maxNumSeqsInBatch)
    (continues : canContinuePrefillBatch cfg bucket.mode l s = true)
    (seqs : l.numBatchedSeqs = l.scheduled.length) :
    (l.scheduled.length : Int) + 1 ≤ cfg.maxNumSeqsInBatch ∧
      (bucket.mode = .rawOffload → l.scheduled = []) := by
  simp only [canContinuePrefillBatch, Bool.and_eq_true] at continues
  have more := continues.2
  split at more
  · have empty : l.scheduled = [] := by
      simp only [Bool.and_eq_true, List.isEmpty_iff] at more
      exact more.1
    rw [empty]
    exact ⟨by simpa using positive, fun _ => rfl⟩
  · next other =>
    simp only [Bool.and_eq_true, decide_eq_true_eq] at more
    exact ⟨by omega, fun raw => absurd raw other⟩

section

variable [DecidableEq κ] (h : hooks.Reports)
include h

theorem belongsTo_chooses (id : Nat) (s : SchedulerState ω) :
    wp (belongsTo cfg hooks bucket pending id)
      (fun eligible s' => s'.world.seqs = s.world.seqs ∧
        (eligible = true → Chosen hooks bucket.mode bucket.compatibility id (s.seqAt id)))
      (fun _ _ => True) s := by
  rw [belongsTo, wp_bind, wp_get, wp_ite]
  split
  · simp only [prefillBatchKey, wp_bind, wp_pure]
    refine wp_next (hook_answers (h.queries.prefillExecutionMode id) s) ?_
    rintro mode s₁ ⟨answer, same₁⟩
    refine wp_next (hook_answers (h.queries.prefillBatchCompatibilityKey id) s₁) ?_
    rintro key s₂ ⟨keyed, same₂⟩
    refine ⟨Eq.trans same₂.world same₁.world, fun eligible => ?_⟩
    obtain ⟨rfl, rfl⟩ := of_decide_eq_true eligible
    exact ⟨⟨s.world, rfl, answer⟩, s₁.world, congrFun same₁.world id, keyed⟩
  · exact ⟨rfl, (by simp)⟩

theorem popNextPrefillSeq_chooses :
    ∀ (queue : List Nat) (t : SchedulerState ω × List Nat),
      wp (popNextPrefillSeq cfg hooks bucket pending queue)
        (fun next t' => t'.1.world.seqs = t.1.world.seqs ∧
          ∀ id ∈ next, Chosen hooks bucket.mode bucket.compatibility id (t.1.seqAt id))
        (fun _ _ => True) t
  | [], _ => ⟨rfl, nofun⟩
  | id :: rest, t => by
    rw [popNextPrefillSeq, wp_bind, wp_outer]
    refine wp_next (belongsTo_chooses h id t.1) ?_
    rintro eligible s₁ ⟨same, chosen⟩
    rw [wp_ite]
    split
    · next belongs =>
      refine ⟨same, fun a here => ?_⟩
      obtain rfl := Option.some.inj here
      exact chosen belongs
    · rw [wp_bind, wp_modify]
      refine wp_next (popNextPrefillSeq_chooses rest _) ?_
      rintro next t' ⟨same', chosen'⟩
      refine ⟨same'.trans same, fun a here => ?_⟩
      have kept : t.1.seqAt a = s₁.seqAt a := (congrFun same a).symm
      rw [kept]
      exact chosen' a here

variable [DecidableEq ρ] {s₀ : SchedulerState ω} (positive : 1 ≤ cfg.maxNumSeqsInBatch)
include positive

theorem prefillBucketLoop_loads (once : ∀ a, s₀.waiting.count a ≤ 1) :
    ∀ (budget : Nat) (l : PrefillLocals ρ) (t : SchedulerState ω × List Nat),
      Line (fun _ _ => True) s₀ l.scheduled t → Loaded cfg hooks bucket l t.1 →
      wp (prefillBucketLoop cfg hooks bucket pending budget l)
        (fun l' t' => Line (fun _ _ => True) s₀ l'.scheduled t' ∧ Loaded cfg hooks bucket l' t'.1)
        (fun _ _ => True) t
  | 0, _, _, line, loaded => ⟨line, loaded⟩
  | budget + 1, l, t, line, loaded => by
    rw [prefillBucketLoop, wp_bind, wp_get, wp_ite]
    split
    · next continues =>
      obtain ⟨room, single⟩ := canContinue_room positive continues loaded.seqs
      rw [wp_bind]
      refine wp_next (wp_and
        (popNextPrefillSeq_pops hooks.frames_true t.1.waiting t line rfl)
        (popNextPrefillSeq_chooses h t.1.waiting t)) ?_
      rintro next t₁ ⟨⟨line₁, -⟩, same₁, chosen⟩
      have loaded₁ : Loaded cfg hooks bucket l t₁.1 := loaded.same same₁ rfl rfl rfl
      cases next with
      | none => exact ⟨by simpa using line₁, loaded₁⟩
      | some id =>
        have chosen : Chosen hooks bucket.mode bucket.compatibility id (t₁.1.seqAt id) := by
          have chosen := chosen id rfl
          rwa [show t₁.1.seqAt id = t.1.seqAt id from congrFun same₁ id]
        -- the candidate was still in the queue, where every id is once
        have next : id ∉ l.scheduled := fun member => by
          have counted := line₁.waiting id
          have some : 0 < l.scheduled.count id := count_pos_iff.mpr member
          have one := once id
          simp only [Option.toList_some, count_append, count_singleton_self] at counted
          omega
        simp only [wp_bind, wp_outer]
        refine wp_next (wp_and
          (considerCandidate_considered hooks.frames_true candidateUpdates_true bucket.mode l id
            t₁.1)
          (considerCandidate_fills h bucket.mode l id t₁.1)) ?_
        rintro outcome s₂ ⟨considered, filled⟩
        have line₂ := line₁.considered considered
        cases outcome with
        | requeued l' =>
          exact prefillBucketLoop_loads once budget l' _ line₂
            (loaded₁.same filled.2.2 considered.1 filled.1 filled.2.1)
        | joined l' =>
          obtain ⟨chunk, fits, seqs, tokens, update⟩ := filled
          have loaded₂ := loaded₁.join next chosen room single fits considered.1 seqs tokens update
          dsimp only
          rw [wp_ite]
          split
          · exact ⟨line₂, loaded₂⟩
          · exact prefillBucketLoop_loads once budget l' _ line₂ loaded₂
    · exact ⟨line, loaded⟩

theorem prefillBuckets_loads (once : ∀ a, s₀.waiting.count a ≤ 1) :
    ∀ (buckets : List (PrefillBucket κ)) (l : PrefillLocals ρ) (s : SchedulerState ω),
      Line (fun _ _ => True) s₀ l.scheduled (s, []) → Between cfg hooks l s →
      wp (prefillBuckets cfg hooks pending buckets l)
        (fun l' s' => Between cfg hooks l' s') (fun _ _ => True) s
  | [], _, _, _, between => between
  | bucket :: buckets, l, s, line, between => by
    rw [prefillBuckets, wp_ite]
    split
    · exact between
    · next fresh =>
      simp only [wp_bind, wp_get, wp_withLocals, wp_tryFinally]
      refine wp_next (prefillBucketLoop_loads h positive once s.waiting.length l (s, []) line
        (between.empty (not_not.mp fresh) bucket)) ?_
      rintro l' t' ⟨line', loaded'⟩
      have restored : Loaded cfg hooks bucket l' { t'.1 with waiting := t'.2 ++ t'.1.waiting } :=
        loaded'.same rfl rfl rfl rfl
      exact prefillBuckets_loads once buckets l' _ line'.restored restored.between

end

/-- The whole batch is within every bound. -/
structure BatchBounds (cfg : SchedulerConfig) (hooks : MemoryOracle ω κ ρ) (batch : List Nat)
    (s : SchedulerState ω) : Prop where
  tokens : (batch.map fun id => (s.seqAt id).currentChunkSize.getD 0).sum ≤ cfg.maxNumBatchedTokens
  count : (batch.length : Int) ≤ cfg.maxNumSeqsInBatch
  members : ∃ mode compatibility, (mode = .rawOffload → batch.length = 1) ∧
    ∀ id ∈ batch, ∃ before chunk, Member hooks mode compatibility id before (s.seqAt id) chunk

def Bounded (cfg : SchedulerConfig) (hooks : MemoryOracle ω κ ρ) (result : ScheduleResult)
    (s : SchedulerState ω) : Prop :=
  result.isPrefill = true → result.seqs ≠ [] → BatchBounds cfg hooks result.seqs s

theorem Loaded.bounds (h : Loaded cfg hooks bucket l s) (some : l.scheduled ≠ []) :
    BatchBounds cfg hooks l.scheduled s where
  tokens := h.chunks ▸ h.tokens some
  count := h.count
  members := ⟨bucket.mode, bucket.compatibility,
    fun raw => le_antisymm (h.single raw) (length_pos_iff.mpr some), h.members⟩

theorem startedUpdates : CandidateUpdates (KeepsStarted (ω := ω)) := by
  have update : ∀ {f : Sequence → Sequence} (_ : ∀ seq, seq.Started → (f seq).Started) id
      (s : SchedulerState ω), KeepsStarted s.world (updateSeq id f s).world := by
    intro f keeps id s a started
    show (Function.update s.world.seqs id (f (s.world.seqs id)) a).Started
    by_cases here : a = id
    · subst here
      rw [update_self]
      exact keeps _ started
    · rwa [update_of_ne here]
  refine ⟨fun chunk => update fun _ started => started, update fun seq started => ?_,
    update fun _ started => started⟩
  rw [adoptHit]
  split
  · exact fun _ => le_rfl
  · exact started

structure Startable (s : SchedulerState ω) : Prop where
  once : s.Once
  started : ∀ id, (s.seqAt id).Started

theorem Startable.shuffled (h : Startable s) (shuffled : Shuffled KeepsStarted s s') :
    Startable s' where
  once a := by rw [shuffled.waiting, shuffled.decoding]; exact h.once a
  started id := shuffled.world id (h.started id)

theorem bounded_of_empty {m : SchedM ω ScheduleResult}
    (empty : wp m (fun result _ => result.seqs = []) (fun _ _ => True) s) :
    wp m (Bounded cfg hooks) (fun _ _ => True) s :=
  wp_mono empty (fun _ _ none _ some => absurd none some) fun _ _ _ => trivial

def BoundedPass (cfg : SchedulerConfig) (hooks : MemoryOracle ω κ ρ) {flags : ReclaimFlags} :
    PassOutcome flags → SchedulerState ω → Prop
  | .done result, s => Bounded cfg hooks result s
  | .again _ _, _ => True

theorem decodePhase_bounded {flags : ReclaimFlags} {decode : Bool}
    (hdecode : decode = true → flags.decode = true) (l : PrefillLocals ρ) (free : Int) :
    wp (decodePhase cfg hooks flags decode hdecode l free) (BoundedPass cfg hooks)
      (fun _ _ => True) s := by
  simp only [decodePhase, wp_bind, wp_modify, wp_get]
  refine wp_of_forall (fun budgets s₁ => ?_) fun _ _ => trivial
  refine wp_of_forall (fun d s₂ => ?_) fun _ _ => trivial
  rw [wp_ite]
  split
  · refine wp_next (withoutBatch_seqs hdecode l d.blocked) fun outcome s₃ none => ?_
    cases outcome with
    | done result => exact fun _ some => absurd (none result rfl) some
    | again => trivial
  · exact fun hprefill => by cases hprefill

section

variable [DecidableEq κ] [DecidableEq ρ] (h : hooks.Reports)
  (positive : 1 ≤ cfg.maxNumSeqsInBatch)
include h positive

theorem prefillPhase_loads (overdue : Bool) (start : Startable s) :
    wp (prefillPhase cfg hooks overdue)
      (fun r s' => r.1.scheduled ≠ [] → BatchBounds cfg hooks r.1.scheduled s')
      (fun _ _ => True) s := by
  simp only [prefillPhase, wp_bind, wp_get]
  refine still_next (hook_still h.started.numFreeSlots) fun free s₁ h₁ => ?_
  refine wp_next (prefillCounters_fresh h.started free s₁) ?_
  rintro counters s₂ ⟨h₂, fresh, seqs, tokens⟩
  refine still_next (hook_still h.started.decodeStepFreeSlots) fun decodeFree s₃ h₃ => ?_
  refine still_next (prefillAllocationBudgets_still h.started) fun budgets s₄ h₄ => ?_
  have still : Still KeepsStarted s s₄ :=
    IsTrans.trans _ _ _ h₁ (IsTrans.trans _ _ _ h₂ (IsTrans.trans _ _ _ h₃ h₄))
  refine wp_next (sortOverdue_shuffles (R := KeepsStarted) overdue s₄) fun _ s₅ h₅ => ?_
  refine wp_next (bucketsToTry_gates h.started s₅) fun buckets s₆ h₆ => ?_
  have start₆ := start.shuffled (still.shuffled.trans (h₅.trans h₆.1.shuffled))
  have empty : ∀ bucket,
      Loaded cfg hooks bucket { counters with allocationBudgets := budgets } s₆ := fun bucket => by
    refine ⟨start₆.started, ?_, fun some => absurd fresh some, ?_, ?_, fun _ => ?_, ?_⟩
    · simp [fresh, tokens]
    · simp [fresh, seqs]
    · simp only [fresh, length_nil]
      omega
    · simp [fresh]
    · simp [fresh]
  refine wp_next (prefillBuckets_loads h positive
    (fun a => (Nat.le_add_right _ _).trans (start₆.once a)) buckets _ s₆
    ⟨fun a => by simp [fresh], rfl, trivial⟩ ⟨fun _ => empty, fun some => absurd fresh some⟩) ?_
  intro l s₇ between some
  obtain ⟨bucket, loaded⟩ := between.full some
  exact loaded.bounds some

theorem passBody_bounded {flags : ReclaimFlags} {decode : Bool}
    (hdecode : decode = true → flags.decode = true) (failure : Option Nat) (start : Startable s) :
    wp (passBody cfg hooks flags decode hdecode failure) (BoundedPass cfg hooks)
      (fun _ _ => True) s := by
  simp only [passBody, wp_bind]
  refine still_next (findOverdue_still (R := KeepsStarted)) fun overdue s₁ h₁ => ?_
  refine wp_next (affinityBatch_picks h.started overdue failure.isSome s₁) ?_
  rintro batch s₂ ⟨h₂, -⟩
  cases batch with
  | some batch => exact fun hprefill => by cases hprefill
  | none =>
    have start₂ := start.shuffled (IsTrans.trans _ _ _ h₁ h₂ : Still KeepsStarted s s₂).shuffled
    simp only [wp_bind]
    refine wp_next (prefillPhase_loads h positive overdue start₂) ?_
    rintro ⟨l, free⟩ s₃ bounds
    dsimp only at bounds ⊢
    cases scheduled : l.scheduled with
    | nil =>
      cases failure with
      | none => exact decodePhase_bounded hdecode l free
      | some id =>
        simp only [preemptFailed, wp_bind]
        refine wp_of_forall (fun _ s₄ => ?_) fun _ _ => trivial
        exact bounded_of_empty (preemptDecodeVictim_seqs id [] [])
    | cons first rest =>
      rw [scheduled] at bounds
      cases failure with
      | none => exact fun _ => bounds
      | some id => exact fun _ => bounds

theorem schedulePass_bounded (flags : ReclaimFlags) (start : Startable s) :
    wp (schedulePass cfg hooks flags) (BoundedPass cfg hooks) (fun _ _ => True) s := by
  simp only [schedulePass, wp_bind, wp_get]
  refine still_next (reserveWindows_still h.started flags) fun reserved s₁ still => ?_
  obtain ⟨failure, reclaimed⟩ := reserved
  dsimp only
  split
  · simp only [preemptCrowded, wp_bind]
    refine wp_of_forall (fun _ s₂ => ?_) fun _ _ => trivial
    refine wp_of_forall (fun _ s₃ => ?_) fun _ _ => trivial
    refine wp_of_forall (fun _ s₄ => ?_) fun _ _ => trivial
    exact bounded_of_empty (preemptDecodeVictim_seqs _ [] [])
  · exact passBody_bounded h positive _ _ (start.shuffled still.shuffled)

theorem scheduleImpl_bounded (flags : ReclaimFlags) {s : SchedulerState ω} (start : Startable s) :
    wp (scheduleImpl cfg hooks flags) (Bounded cfg hooks) (fun _ _ => True) s := by
  rw [scheduleImpl, wp_bind]
  refine wp_next (wp_and (schedulePass_passes h.started startedUpdates flags s)
    (schedulePass_bounded h positive flags start)) ?_
  rintro outcome s₁ ⟨passed, bounded⟩
  cases outcome with
  | done result => exact bounded
  | again next fewer => exact scheduleImpl_bounded next (start.shuffled passed)
termination_by flags.number

theorem schedule_bounded (start : Startable s) :
    wp (schedule cfg hooks) (Bounded cfg hooks) (fun _ _ => True) s := by
  have noted := noteWaiting_still (R := KeepsStarted) (s.now hooks) s.waiting s
  simp only [schedule, wp_bind, wp_get, wp_modify, wp_tryExcept, wp_tryFinally, wp_raise]
  refine still_next (hook_still h.started.enterCapacitySnapshot) fun _ s₁ entered => ?_
  have entered : Still KeepsStarted s s₁ := IsTrans.trans _ _ _ noted entered
  refine wp_mono (scheduleImpl_bounded h positive {} (start.shuffled entered.shuffled))
    (fun result s₂ bounded => ?_) fun _ s₂ _ => wp_of_forall (fun _ _ => trivial) fun _ _ => trivial
  refine still_next (hook_still h.queries.exitCapacitySnapshot) fun _ s₃ exited => ?_
  intro prefill some
  have recorded : Still SameSeqs s₃ (recordPhase (s.now hooks) result s₃) := recordPhase_still _ _ _
  have same : (recordPhase (s.now hooks) result s₃).seqAt = s₂.seqAt :=
    recorded.world.trans exited.world
  obtain ⟨tokens, count, members⟩ := bounded prefill some
  refine ⟨?_, count, ?_⟩
  · rw [same]
    exact tokens
  · rw [same]
    exact members

/-- Every prefill batch that `schedule` returns is within the token and sequence budgets, its
members have one execution mode and one compatibility key, a raw-offload sequence and a replay are
alone, and every chunk is positive and ends in the prompt, with nothing or a last chunk of the
smallest size behind it. -/
theorem prefill_batch_bounds (once : s.Once) (started : ∀ id, (s.seqAt id).Started)
    {result : ScheduleResult} (run : schedule cfg hooks s = (.ok result, s')) (prefill : result.isPrefill = true)
    (some : result.seqs ≠ []) :
    BatchBounds cfg hooks result.seqs s' ∧
      ∀ id ∈ result.seqs, (s.seqAt id).isRecomputeReplay = true → result.seqs = [id] := by
  have bounded := (wp_of_ok run).mp (schedule_bounded h positive ⟨once, started⟩)
  have outcome := (wp_of_ok run).mp (schedule_outcome h.progress candidateUpdates_progress once)
  refine ⟨bounded prefill some, fun id member replay => ?_⟩
  cases outcome with
  | prefill waiting _ _ gated =>
    have inside : ∀ a, List.count a _ ≤ s.waiting.count a := fun a =>
      (Nat.le_add_right _ _).trans (waiting a).le
    exact (gated.replay_alone inside member replay).1
  | decode => cases prefill
  | preempt => cases prefill

end

def roomyOracle : MemoryOracle Unit Unit Unit :=
  { Custody.demoOracle false with
    remainingPrefillTokens := fun id w => (.ok (w.seqs id).remainingPrefillTokens, w)
    prefillStepFreeSlots := pure 100
    prefillStepFreeSlotsFor := fun _ => pure 100 }

theorem roomyOracle_reports : roomyOracle.Reports := by
  refine ⟨?_, ?_, ?_, fun id w r answer => (Except.ok.inj answer).symm⟩
  all_goals
    constructor <;> first
      | exact fun w => refl w
      | exact fun _ w => refl w
      | exact fun _ _ w => refl w
      | exact nofun

def hitInContext : SchedulerState Unit where
  world :=
    { oracle := ()
      seqs := fun id =>
        { create id (replicate 20 3) 9 with
          contextLength := some 10, prefixCacheHitLen := 8 } }
  waiting := [0]

theorem prefill_batch_straddles :
    roomyOracle.Reports ∧ ∃ s',
      schedule Custody.demoConfig roomyOracle hitInContext = (.ok ⟨[0], true, []⟩, s') ∧
      (s'.seqAt 0).contextLength = some 10 ∧ (s'.seqAt 0).numPrefilledTokens = 8 ∧
      (s'.seqAt 0).currentChunkSize = some 8 := by
  refine ⟨roomyOracle_reports, _, Prod.ext ?_ rfl, ?_⟩ <;> decide +kernel

theorem prefill_batch_bounds_hit :
    (([0].map fun id => (((schedule Custody.demoConfig roomyOracle hitInContext).2).seqAt
      id).currentChunkSize.getD 0).sum : Int) ≤ 8 := by
  have once : hitInContext.Once := by
    intro a
    show [0].count a + 0 ≤ 1
    rw [count_singleton]
    split <;> decide
  have run : schedule Custody.demoConfig roomyOracle hitInContext =
      (.ok ⟨[0], true, []⟩, (schedule Custody.demoConfig roomyOracle hitInContext).2) :=
    Prod.ext (by decide +kernel) rfl
  exact (prefill_batch_bounds roomyOracle_reports (by decide) once (fun _ some => absurd rfl some)
    run rfl nofun).1.tokens

end SchedulerState

end SparseEngine
