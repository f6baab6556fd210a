import SparseEngine.Mixed.Handoff
import SparseEngine.Mixed.Attaching
import SparseEngine.Scheduler.Chunks

/-! An engine with a mixed prefix cache: sequences are admitted below a prefix hit, prefilled in
chunks that the scheduler chooses, decoded and released. -/

namespace SparseEngine

open PyM RadixPrefixIndex Scheduler PrefixCacheCoordinator List Finset Dict

variable {ι κ μ : Type} [LinearOrder ι]

structure MixedEngine (ι κ μ : Type) where
  coordinator : PrefixCacheCoordinator ι κ μ
  sequences : Dict Nat (MixedSequence ι) := .empty

/-- One step: its batch with the chunk or the decode token of each sequence, the slots that
`evict_for_slots` is asked for, and the managers after the forward pass. -/
structure MixedStep (ι μ : Type) where
  isPrefill : Bool
  batch : List (MixedSequence ι)
  neededSlots : Nat
  managers : μ

/-- What precedes `record_step_tokens`: `prepare_step` and the forward pass. -/
def MixedStep.prepare (cfg : CoordinatorConfig ι κ μ) (step : MixedStep ι μ) : CoordM ι κ μ Unit := do
  if step.isPrefill then
    attachPrefixCacheHits cfg step.batch
  else
    pure ()
  evictForSlots cfg step.neededSlots
  PyM.modify fun c => { c with managers := step.managers }

/-- A sequence as `refresh_prefix_cache_hit` and the admission leave it. -/
structure Admitted (cfg : CoordinatorConfig ι κ μ) (seq : MixedSequence ι) : Prop where
  prefilled : seq.numPrefilledTokens = seq.prefixCacheHitLen
  aligned : seq.prefixCacheHitLen % cfg.blockSize = 0
  partialHit : seq.prefixCacheHitLen < seq.numPromptTokens
  noHit : seq.prefixCacheHitLen = 0 → seq.prefixCacheHitLastBlockId = none
  prompt : seq.numPromptTokens ≤ seq.tokenIds.length

def boundaryLimit (cfg : CoordinatorConfig ι κ μ) (seq : MixedSequence ι) : Nat :=
  mixedPrefixBoundaryLimit cfg.blockSize seq.numPromptTokens seq.numPrefilledTokens
    seq.prefixCacheHitLen

/-- A sequence of a batch is a live one with the chunk that the scheduler gave it, or, once
its prompt is done, with the token that it decodes. -/
def Scheduled (cfg : CoordinatorConfig ι κ μ) (isPrefill : Bool) (live seq : MixedSequence ι) : Prop :=
  if isPrefill then
    ∃ x : ChunkInputs, 0 < chunkTokens x (boundaryLimit cfg live) ∧
      seq = { live with currentChunkSize := (chunkTokens x (boundaryLimit cfg live)).toNat }
  else
    live.numPromptTokens ≤ live.numPrefilledTokens ∧ ∃ token, seq = { live with decodeInputToken := token }

structure MixedStep.Schedules (cfg : CoordinatorConfig ι κ μ) (step : MixedStep ι μ)
    (e : MixedEngine ι κ μ) : Prop where
  nodup : (step.batch.map (·.seqId)).Nodup
  live : ∀ seq ∈ step.batch, ∃ live, e.sequences.get? seq.seqId = some live ∧
    Scheduled cfg step.isPrefill live seq

/-- `postprocess`: a prefilled chunk is done. -/
def prefilled (isPrefill : Bool) (seq : MixedSequence ι) : MixedSequence ι :=
  if isPrefill then
    { seq with numPrefilledTokens := seq.numPrefilledTokens + seq.currentChunkSize }
  else seq

def MixedStep.postprocess (step : MixedStep ι μ) (sequences : Dict Nat (MixedSequence ι)) :
    Dict Nat (MixedSequence ι) :=
  step.batch.foldl (fun d seq => d.set seq.seqId (prefilled step.isPrefill seq)) sequences

/-- The engine between steps, as long as every call returns. -/
inductive MixedEngine.Run (cfg : CoordinatorConfig ι κ μ) : MixedEngine ι κ μ → Prop
  | start (managers : μ) : Run cfg { coordinator := initial cfg managers }
  | admission {e : MixedEngine ι κ μ} (seq : MixedSequence ι) : Run cfg e →
      e.sequences.get? seq.seqId = none → Admitted cfg seq →
      Run cfg { e with sequences := e.sequences.set seq.seqId seq }
  | managers {e : MixedEngine ι κ μ} (managers : μ) : Run cfg e →
      Run cfg { e with coordinator := { e.coordinator with managers := managers } }
  | pollOffload {e : MixedEngine ι κ μ} {c : PrefixCacheCoordinator ι κ μ} : Run cfg e →
      PrefixCacheCoordinator.pollOffload cfg e.coordinator = (.ok (), c) →
      Run cfg { e with coordinator := c }
  | evictForSlots {e : MixedEngine ι κ μ} {c : PrefixCacheCoordinator ι κ μ} (needed : Nat) :
      Run cfg e → PrefixCacheCoordinator.evictForSlots cfg needed e.coordinator = (.ok (), c) →
      Run cfg { e with coordinator := c }
  | release {e : MixedEngine ι κ μ} {c : PrefixCacheCoordinator ι κ μ} (seqId : Nat) :
      Run cfg e → releaseSeq cfg seqId e.coordinator = (.ok (), c) →
      Run cfg { coordinator := c, sequences := e.sequences.erase seqId }
  | step {e : MixedEngine ι κ μ} {c₁ c₂ c₃ : PrefixCacheCoordinator ι κ μ} (step : MixedStep ι μ) :
      Run cfg e → step.Schedules cfg e → step.prepare cfg e.coordinator = (.ok (), c₁) →
      recordsBelowDevice cfg step.isPrefill step.batch c₁ = true →
      recordStepTokens cfg step.batch step.isPrefill c₁ = (.ok (), c₂) →
      commitPendingBlocks cfg step.batch c₂ = (.ok (), c₃) →
      Run cfg { coordinator := c₃, sequences := step.postprocess e.sequences }

/-- What a live sequence and the coordinator agree on: the tokens of its unfinished block,
and the block it continues, which it holds unless its hit is still to be attached. -/
structure LiveSequence (cfg : CoordinatorConfig ι κ μ) (c : PrefixCacheCoordinator ι κ μ)
    (seq : MixedSequence ι) : Prop where
  aligned : seq.prefixCacheHitLen % cfg.blockSize = 0
  partialHit : seq.prefixCacheHitLen < seq.numPromptTokens
  noHit : seq.prefixCacheHitLen = 0 → seq.prefixCacheHitLastBlockId = none
  prompt : seq.numPromptTokens ≤ seq.tokenIds.length
  le : seq.prefixCacheHitLen ≤ seq.numPrefilledTokens
  attached : ∀ bs, c.seqIdToPrefixBlocks.get? seq.seqId = some bs →
    ∃ b ∈ bs, seq.prefixCacheHitLastBlockId = some b.stableBlockId
  pending : records c seq = true → (stateOf c seq).pendingTokens.length < cfg.blockSize ∧
    (seq.numPrefilledTokens < seq.numPromptTokens →
      (stateOf c seq).pendingTokens.length = seq.numPrefilledTokens % cfg.blockSize)
  parent : records c seq = true → ∀ p, (stateOf c seq).parentBlockId = some p →
    Holds c seq.seqId p ∨
      (seq.numPrefilledTokens = seq.prefixCacheHitLen ∧ seq.prefixCacheHitLastBlockId = some p)

/-- Between steps nothing is pending, and a dead sequence has no table entry. -/
structure MixedEngine.Inv (cfg : CoordinatorConfig ι κ μ) (e : MixedEngine ι κ μ) : Prop where
  holding : Holding e.coordinator
  balanced : Balanced cfg e.coordinator
  idle : Idle e.coordinator
  keys : ∀ k seq, e.sequences.get? k = some seq → seq.seqId = k
  dead : ∀ k, e.sequences.get? k = none → e.coordinator.seqIdToPrefixBlocks.get? k = none ∧
    e.coordinator.runtimeStates.get? k = none ∧ k ∉ e.coordinator.capacityLimitedSeqIds
  live : ∀ k seq, e.sequences.get? k = some seq → LiveSequence cfg e.coordinator seq

section

variable {cfg : CoordinatorConfig ι κ μ} {c c' c₁ c₂ c₃ : PrefixCacheCoordinator ι κ μ}
  {seq : MixedSequence ι} {e : MixedEngine ι κ μ} {step : MixedStep ι μ}

omit [LinearOrder ι] in
theorem LiveSequence.transfer (h : LiveSequence cfg c seq)
    (hp : c'.seqIdToPrefixBlocks.get? seq.seqId = c.seqIdToPrefixBlocks.get? seq.seqId)
    (hr : c'.runtimeStates.get? seq.seqId = c.runtimeStates.get? seq.seqId)
    (hl : seq.seqId ∈ c'.capacityLimitedSeqIds ↔ seq.seqId ∈ c.capacityLimitedSeqIds)
    (hh : ∀ x, Holds c seq.seqId x → Holds c' seq.seqId x) : LiveSequence cfg c' seq := by
  have hstate : stateOf c' seq = stateOf c seq := by
    unfold stateOf
    rw [hr]
  have hrec : records c' seq = records c seq := by
    unfold records
    rw [decide_eq_decide.mpr (not_congr hl)]
  refine ⟨h.aligned, h.partialHit, h.noHit, h.prompt, h.le, fun bs hbs => ?_, fun hr => ?_,
    fun hr p hp => ?_⟩
  · rw [hp] at hbs
    exact h.attached bs hbs
  · rw [hstate]
    exact h.pending (hrec ▸ hr)
  · rw [hstate] at hp
    exact (h.parent (hrec ▸ hr) p hp).imp_left (hh p)

theorem MixedEngine.Inv.kept (h : MixedEngine.Inv cfg e) (hk : Kept e.coordinator c)
    (hb : Balanced cfg c) : MixedEngine.Inv cfg { e with coordinator := c } := by
  have hp : c.seqIdToPrefixBlocks = e.coordinator.seqIdToPrefixBlocks :=
    congrArg SequenceTables.prefixBlocks hk.tables
  have hr : c.runtimeStates = e.coordinator.runtimeStates :=
    congrArg SequenceTables.runtimeStates hk.tables
  have hl : c.capacityLimitedSeqIds = e.coordinator.capacityLimitedSeqIds :=
    congrArg SequenceTables.capacityLimitedSeqIds hk.tables
  refine ⟨h.holding.kept hk, hb, fun k => ?_, h.keys, fun k hk' => ?_, fun k seq hseq => ?_⟩
  · have hpend : pendings c k = pendings e.coordinator k :=
      congrArg (fun t => (t.pendingBlocks.get? k).getD []) hk.tables
    have hdup : duplicates c k = duplicates e.coordinator k :=
      congrArg (fun t => (t.pendingDuplicateRefs.get? k).getD []) hk.tables
    rw [hpend, hdup]
    exact h.idle k
  · rw [hp, hr, hl]
    exact h.dead k hk'
  · exact (h.live k seq hseq).transfer (by rw [hp]) (by rw [hr]) (by rw [hl])
      fun x hx => hx.tables hk.tables

theorem MixedEngine.Inv.start (managers : μ) :
    MixedEngine.Inv cfg ({ coordinator := initial cfg managers } : MixedEngine ι κ μ) where
  holding := by
    have hb : Balanced cfg (initial (κ := κ) cfg managers) := (Reachable.initial managers).balanced
    refine ⟨hb.wf, fun id b hb => ?_, fun k bs hbs => ?_, fun k d hd => ?_⟩
    · cases hb
    · cases hbs
    · cases hd
  balanced := (Reachable.initial managers).balanced
  idle := fun _ => ⟨rfl, rfl⟩
  keys := fun _ _ hseq => by cases hseq
  dead := fun k _ => ⟨rfl, rfl, notMem_empty k⟩
  live := fun _ _ hseq => by cases hseq

theorem MixedEngine.Inv.admission (h : MixedEngine.Inv cfg e)
    (hnew : e.sequences.get? seq.seqId = none) (ha : Admitted cfg seq) :
    MixedEngine.Inv cfg { e with sequences := e.sequences.set seq.seqId seq } := by
  obtain ⟨hp, hr, hl⟩ := h.dead _ hnew
  have hstate : stateOf e.coordinator seq =
      { parentBlockId := seq.prefixCacheHitLastBlockId
        nextLogicalBlockIdx := seq.prefixCacheHitBlockCount } := by
    unfold stateOf
    rw [hr]
    rfl
  refine ⟨h.holding, h.balanced, h.idle, fun k s hs => ?_, fun k hk => ?_, fun k s hs => ?_⟩
  · have hs' : (e.sequences.set seq.seqId seq).get? k = some s := hs
    rw [Dict.get?_set] at hs'
    split at hs'
    · next hk =>
      cases hs'
      exact hk.symm
    · exact h.keys k s hs'
  · have hk' : (e.sequences.set seq.seqId seq).get? k = none := hk
    rw [Dict.get?_set] at hk'
    split at hk'
    · cases hk'
    · exact h.dead k hk'
  · have hs' : (e.sequences.set seq.seqId seq).get? k = some s := hs
    rw [Dict.get?_set] at hs'
    split at hs'
    · cases hs'
      refine ⟨ha.aligned, ha.partialHit, ha.noHit, ha.prompt, ha.prefilled.ge, fun bs hbs => ?_,
        fun _ => ?_, fun _ p hpar => ?_⟩
      · rw [hp] at hbs
        cases hbs
      · rw [hstate]
        refine ⟨cfg.index.blockSize_pos, fun _ => ?_⟩
        rw [ha.prefilled, ha.aligned]
        rfl
      · rw [hstate] at hpar
        exact .inr ⟨ha.prefilled, hpar⟩
    · exact h.live k s hs'

theorem MixedEngine.Inv.release {seqId : Nat} (h : MixedEngine.Inv cfg e)
    (hd : Dismissed seqId e.coordinator c) (hb : Balanced cfg c) :
    MixedEngine.Inv cfg { coordinator := c, sequences := e.sequences.erase seqId } := by
  refine ⟨hd.holding, hb, fun k => ?_, fun k s hs => ?_, fun k hk => ?_, fun k s hs => ?_⟩
  · unfold pendings duplicates
    rw [hd.pending, hd.duplicates, get?_erase, get?_erase]
    split
    · exact ⟨rfl, rfl⟩
    · exact h.idle k
  · have hs' : (e.sequences.erase seqId).get? k = some s := hs
    rw [get?_erase] at hs'
    split at hs'
    · cases hs'
    · exact h.keys k s hs'
  · have hk' : (e.sequences.erase seqId).get? k = none := hk
    show c.seqIdToPrefixBlocks.get? k = none ∧ c.runtimeStates.get? k = none ∧
      k ∉ c.capacityLimitedSeqIds
    rw [hd.prefixBlocks, hd.runtime, hd.limited, get?_erase, get?_erase]
    rw [get?_erase] at hk'
    split
    · next heq => exact ⟨rfl, rfl, fun hmem => (mem_erase.mp hmem).1 heq⟩
    · next hne =>
      rw [if_neg hne] at hk'
      obtain ⟨hp, hr, hl⟩ := h.dead k hk'
      exact ⟨hp, hr, fun hmem => hl (mem_erase.mp hmem).2⟩
  · have hs' : (e.sequences.erase seqId).get? k = some s := hs
    rw [get?_erase] at hs'
    split at hs'
    · cases hs'
    · next hne =>
      have hk : s.seqId = k := h.keys k s hs'
      have hne' : s.seqId ≠ seqId := hk ▸ hne
      refine (h.live k s hs').transfer ?_ ?_ ?_ fun x hx => ?_
      · rw [hd.prefixBlocks, get?_erase_ne _ hne']
      · rw [hd.runtime, get?_erase_ne _ hne']
      · rw [hd.limited, mem_erase]
        exact and_iff_right hne'
      · unfold Holds heldBlocks at hx ⊢
        rw [hd.prefixBlocks, hd.materialized, get?_erase_ne _ hne', get?_erase_ne _ hne']
        exact hx

/-! ### Preparing a step -/

/-- What `prepare_step` leaves for the recording. -/
structure Prepared (step : MixedStep ι μ) (c c₁ : PrefixCacheCoordinator ι κ μ) : Prop where
  holding : Holding c₁
  holds : ∀ k x, Holds c k x → Holds c₁ k x
  runtime : c₁.runtimeStates = c.runtimeStates
  pending : c₁.pendingBlocks = c.pendingBlocks
  duplicates : c₁.pendingDuplicateRefs = c.pendingDuplicateRefs
  limited : c₁.capacityLimitedSeqIds = c.capacityLimitedSeqIds
  others : ∀ k, k ∉ step.batch.map (·.seqId) ∨ step.isPrefill = false →
    c₁.seqIdToPrefixBlocks.get? k = c.seqIdToPrefixBlocks.get? k
  chain : step.isPrefill = true → ∀ seq ∈ step.batch, seq.prefixCacheHitLen ≠ 0 →
    ∃ bs, c₁.seqIdToPrefixBlocks.get? seq.seqId = some bs ∧
      (c.seqIdToPrefixBlocks.get? seq.seqId = some bs ∨
        ∃ b ∈ bs, seq.prefixCacheHitLastBlockId = some b.stableBlockId)
  skipped : ∀ seq ∈ step.batch, seq.prefixCacheHitLen = 0 →
    c₁.seqIdToPrefixBlocks.get? seq.seqId = c.seqIdToPrefixBlocks.get? seq.seqId

/-- The attaching loop after `done`. -/
structure AttachedAll (done : List (MixedSequence ι)) (c c₁ : PrefixCacheCoordinator ι κ μ) :
    Prop where
  holding : Holding c₁
  holds : ∀ k x, Holds c k x → Holds c₁ k x
  runtime : c₁.runtimeStates = c.runtimeStates
  pending : c₁.pendingBlocks = c.pendingBlocks
  duplicates : c₁.pendingDuplicateRefs = c.pendingDuplicateRefs
  limited : c₁.capacityLimitedSeqIds = c.capacityLimitedSeqIds
  others : ∀ k, k ∉ done.map (·.seqId) →
    c₁.seqIdToPrefixBlocks.get? k = c.seqIdToPrefixBlocks.get? k
  chain : ∀ seq ∈ done, seq.prefixCacheHitLen ≠ 0 →
    ∃ bs, c₁.seqIdToPrefixBlocks.get? seq.seqId = some bs ∧
      (c.seqIdToPrefixBlocks.get? seq.seqId = some bs ∨
        ∃ b ∈ bs, seq.prefixCacheHitLastBlockId = some b.stableBlockId)
  skipped : ∀ seq ∈ done, seq.prefixCacheHitLen = 0 →
    c₁.seqIdToPrefixBlocks.get? seq.seqId = c.seqIdToPrefixBlocks.get? seq.seqId

theorem AttachedAll.of_kept (h : Holding c) (hk : Kept c c₁) : AttachedAll [] c c₁ where
  holding := h.kept hk
  holds := fun _ _ hx => hx.tables hk.tables
  runtime := congrArg SequenceTables.runtimeStates hk.tables
  pending := congrArg SequenceTables.pendingBlocks hk.tables
  duplicates := congrArg SequenceTables.pendingDuplicateRefs hk.tables
  limited := congrArg SequenceTables.capacityLimitedSeqIds hk.tables
  others := fun k _ => congrArg (fun t => t.prefixBlocks.get? k) hk.tables
  chain := fun _ hmem => absurd hmem List.not_mem_nil
  skipped := fun _ hmem => absurd hmem List.not_mem_nil

theorem AttachedAll.turn {done : List (MixedSequence ι)} (h : AttachedAll done c c₁)
    (hnew : seq.seqId ∉ done.map (·.seqId)) (ha : Attached seq c₁ c₂) :
    AttachedAll (done ++ [seq]) c c₂ := by
  have hold : ∀ s ∈ done, s.seqId ≠ seq.seqId :=
    fun s hs heq => hnew (heq ▸ mem_map_of_mem hs)
  refine ⟨ha.holding, fun k x hx => ha.holds k x (h.holds k x hx), ha.runtime.trans h.runtime,
    ha.pending.trans h.pending, ha.duplicates.trans h.duplicates, ha.limited.trans h.limited,
    fun k hk => ?_, fun s hs hlen => ?_, fun s hs hlen => ?_⟩
  · rw [List.map_append, List.mem_append, not_or, List.map_singleton, List.mem_singleton] at hk
    exact (ha.others k hk.2).trans (h.others k hk.1)
  · rcases List.mem_append.mp hs with hs | hs
    · rw [ha.others _ (hold s hs)]
      exact h.chain s hs hlen
    · rw [List.mem_singleton.mp hs] at hlen ⊢
      rw [← h.others _ hnew]
      exact ha.chain hlen
  · rcases List.mem_append.mp hs with hs | hs
    · rw [ha.others _ (hold s hs)]
      exact h.skipped s hs hlen
    · rw [List.mem_singleton.mp hs] at hlen ⊢
      exact (ha.skipped hlen).trans (h.others _ hnew)

theorem attach_loop : ∀ (rest done : List (MixedSequence ι)) (c₁ : PrefixCacheCoordinator ι κ μ),
    AttachedAll done c c₁ → ((done ++ rest).map (·.seqId)).Nodup →
    wp (PyM.forEach (attachSeq cfg) rest) (fun _ c₂ => AttachedAll (done ++ rest) c c₂)
      (fun _ _ => True) c₁
  | [], done, c₁, h, _ => by
    rw [append_nil]
    exact h
  | seq :: rest, done, c₁, h, hnodup => by
    have hnew : seq.seqId ∉ done.map (·.seqId) := by
      rw [List.map_append, List.map_cons] at hnodup
      intro hmem
      exact (List.nodup_append.mp hnodup).2.2 _ hmem _ List.mem_cons_self rfl
    rw [PyM.forEach, wp_bind]
    refine wp_mono (attachSeq_attached h.holding) (fun _ c₂ h₂ => ?_) fun _ _ ht => ht
    have hnext := attach_loop rest (done ++ [seq]) c₂ (h.turn hnew h₂) (by rwa [append_assoc])
    rw [append_assoc] at hnext
    exact hnext

theorem AttachedAll.prepared (h : AttachedAll (if step.isPrefill then step.batch else []) c c₁)
    (hk : Kept c₁ c₂) : Prepared step c { c₂ with managers := step.managers } := by
  have hp : c₂.seqIdToPrefixBlocks = c₁.seqIdToPrefixBlocks :=
    congrArg SequenceTables.prefixBlocks hk.tables
  have hheld := h.holding.kept hk
  refine ⟨hheld.of_same rfl rfl rfl, fun k x hx => (h.holds k x hx).tables hk.tables,
    (congrArg SequenceTables.runtimeStates hk.tables).trans h.runtime,
    (congrArg SequenceTables.pendingBlocks hk.tables).trans h.pending,
    (congrArg SequenceTables.pendingDuplicateRefs hk.tables).trans h.duplicates,
    (congrArg SequenceTables.capacityLimitedSeqIds hk.tables).trans h.limited,
    fun k hk' => ?_, fun hpre seq hseq hlen => ?_, fun seq hseq hlen => ?_⟩
  · show c₂.seqIdToPrefixBlocks.get? k = _
    rw [hp]
    refine h.others k ?_
    split
    · next hpre =>
      rcases hk' with hno | hfalse
      · exact hno
      · rw [hpre] at hfalse
        cases hfalse
    · exact List.not_mem_nil
  · show ∃ bs, c₂.seqIdToPrefixBlocks.get? seq.seqId = some bs ∧ _
    rw [hp]
    rw [if_pos hpre] at h
    exact h.chain seq hseq hlen
  · show c₂.seqIdToPrefixBlocks.get? seq.seqId = _
    rw [hp]
    by_cases hpre : step.isPrefill = true
    · rw [if_pos hpre] at h
      exact h.skipped seq hseq hlen
    · rw [if_neg hpre] at h
      exact h.others _ List.not_mem_nil

theorem prepare_prepared (h : Holding c) (hnodup : (step.batch.map (·.seqId)).Nodup) :
    wp (step.prepare cfg) (fun _ c₁ => Prepared step c c₁) (fun _ _ => True) c := by
  have hrest : ∀ c₁, AttachedAll (if step.isPrefill then step.batch else []) c c₁ →
      wp (do
        evictForSlots cfg step.neededSlots
        PyM.modify fun c => { c with managers := step.managers } : CoordM ι κ μ Unit)
        (fun _ c₁ => Prepared step c c₁) (fun _ _ => True) c₁ := by
    intro c₁ h₁
    rw [wp_bind]
    exact wp_mono (steady_wp (evictForSlots_steady step.neededSlots) h₁.holding)
      (fun _ c₂ h₂ => h₁.prepared h₂) fun _ _ ht => ht
  unfold MixedStep.prepare
  dsimp only
  split
  · next hpre =>
    rw [if_pos hpre] at hrest
    rw [attachPrefixCacheHits, wp_bind, wp_bind]
    refine wp_mono (steady_wp tolerates_steady.pollOffload h) (fun _ c₀ h₀ => ?_) fun _ _ ht => ht
    exact wp_mono (attach_loop step.batch [] c₀ (.of_kept h h₀) hnodup)
      (fun _ c₁ h₁ => hrest c₁ h₁) fun _ _ ht => ht
  · next hpre =>
    rw [if_neg hpre] at hrest
    exact hrest c (.of_kept h ⟨.refl h.wf, rfl⟩)

/-! ### The turns of a step -/

theorem Prepared.live (h : Prepared step c c₁) (hl : LiveSequence cfg c seq)
    (hmem : seq ∈ step.batch) : LiveSequence cfg c₁ seq := by
  have hstate : stateOf c₁ seq = stateOf c seq := by
    unfold stateOf
    rw [h.runtime]
  have hrec : records c₁ seq = records c seq := by
    unfold records
    rw [h.limited]
  refine ⟨hl.aligned, hl.partialHit, hl.noHit, hl.prompt, hl.le, fun bs hbs => ?_, fun hr => ?_,
    fun hr p hp => ?_⟩
  · by_cases hlen : seq.prefixCacheHitLen = 0
    · rw [h.skipped seq hmem hlen] at hbs
      exact hl.attached bs hbs
    · cases hpre : step.isPrefill with
      | false =>
        rw [h.others _ (.inr hpre)] at hbs
        exact hl.attached bs hbs
      | true =>
        obtain ⟨bs', hbs', hchain⟩ := h.chain hpre seq hmem hlen
        rw [hbs] at hbs'
        cases hbs'
        exact hchain.elim (hl.attached bs) fun hlast => hlast
  · rw [hstate]
    exact hl.pending (hrec ▸ hr)
  · rw [hstate] at hp
    exact (hl.parent (hrec ▸ hr) p hp).imp_left (h.holds _ p)

structure Chunk (cfg : CoordinatorConfig ι κ μ) (seq : MixedSequence ι) : Prop where
  bounded : Bounded cfg seq
  pos : 0 < seq.currentChunkSize
  within : seq.numPrefilledTokens + seq.currentChunkSize ≤ seq.numPromptTokens

omit [LinearOrder ι] in
theorem Scheduled.chunk {live : MixedSequence ι} (h : Scheduled cfg true live seq)
    (hle : live.prefixCacheHitLen ≤ live.numPrefilledTokens) : Chunk cfg seq := by
  obtain ⟨x, hpos, rfl⟩ : ∃ x : ChunkInputs, 0 < chunkTokens x (boundaryLimit cfg live) ∧
      seq = { live with currentChunkSize := (chunkTokens x (boundaryLimit cfg live)).toNat } := h
  have hchunk := chunkTokens_le x (boundaryLimit cfg live)
  obtain ⟨hboundary, hprompt⟩ := mixedPrefixBoundaryLimit_le cfg.blockSize live.numPromptTokens
    live.numPrefilledTokens live.prefixCacheHitLen
  rw [max_eq_left hle] at hboundary hprompt
  unfold boundaryLimit at hchunk hpos ⊢
  refine ⟨?_, ?_, ?_⟩
  · show (chunkTokens x _).toNat ≤ cfg.blockSize - live.numPrefilledTokens % cfg.blockSize
    omega
  · show 0 < (chunkTokens x _).toNat
    omega
  · show live.numPrefilledTokens + (chunkTokens x _).toNat ≤ live.numPromptTokens
    omega

omit [LinearOrder ι] in
theorem Chunk.length_stepTokens (h : Chunk cfg seq)
    (hprompt : seq.numPromptTokens ≤ seq.tokenIds.length) :
    (stepTokens true seq).length = seq.currentChunkSize := by
  have hpos := h.pos
  have hwithin := h.within
  unfold stepTokens
  rw [if_pos rfl, if_neg (by omega)]
  split
  · rw [length_take, length_drop]
    omega
  · omega

omit [LinearOrder ι] in
theorem LiveSequence.scheduled {isPrefill : Bool} {live : MixedSequence ι}
    (h : LiveSequence cfg c live) (hs : Scheduled cfg isPrefill live seq) :
    LiveSequence cfg c seq := by
  unfold Scheduled at hs
  split at hs
  · obtain ⟨x, -, rfl⟩ := hs
    exact { h with }
  · obtain ⟨-, token, rfl⟩ := hs
    exact { h with }

structure Batched (cfg : CoordinatorConfig ι κ μ) (isPrefill : Bool) (seq : MixedSequence ι)
    (c : PrefixCacheCoordinator ι κ μ) : Prop where
  live : LiveSequence cfg c seq
  chunk : isPrefill = true → Chunk cfg seq
  decoded : isPrefill = false → seq.numPromptTokens ≤ seq.numPrefilledTokens
  linked : isPrefill = true → seq.prefixCacheHitLen ≠ 0 →
    ∃ bs, c.seqIdToPrefixBlocks.get? seq.seqId = some bs

theorem MixedEngine.Inv.batched (h : MixedEngine.Inv cfg e) (hs : step.Schedules cfg e)
    (hp : Prepared step e.coordinator c₁) (hmem : seq ∈ step.batch) :
    Batched cfg step.isPrefill seq c₁ := by
  obtain ⟨live, hget, hsched⟩ := hs.live seq hmem
  have hlive := h.live _ live hget
  refine ⟨hp.live (hlive.scheduled hsched) hmem, fun hpre => ?_, fun hpre => ?_,
    fun hpre hlen => ?_⟩
  · rw [hpre] at hsched
    exact hsched.chunk hlive.le
  · rw [hpre] at hsched
    obtain ⟨hdone, token, rfl⟩ : live.numPromptTokens ≤ live.numPrefilledTokens ∧
        ∃ token, seq = { live with decodeInputToken := token } := hsched
    exact hdone
  · obtain ⟨bs, hbs, -⟩ := hp.chain hpre seq hmem hlen
    exact ⟨bs, hbs⟩

theorem Batched.ready {isPrefill : Bool} (h : Batched cfg isPrefill seq c) :
    Ready cfg isPrefill seq c := by
  refine ⟨fun hpre => (h.chunk hpre).bounded, fun hr => ?_, fun hr p hp => ?_⟩
  · obtain ⟨hlt, heq⟩ := h.live.pending hr
    refine ⟨hlt, ?_⟩
    cases isPrefill with
    | false => exact hlt
    | true =>
      have hchunk := h.chunk rfl
      have hbounded : seq.currentChunkSize ≤
        cfg.blockSize - seq.numPrefilledTokens % cfg.blockSize := hchunk.bounded
      have hpos := hchunk.pos
      have hwithin := hchunk.within
      have hmod := Nat.mod_lt seq.numPrefilledTokens cfg.index.blockSize_pos
      rw [hchunk.length_stepTokens h.live.prompt, heq (by omega)]
      have hB : cfg.blockSize = cfg.index.blockSize := rfl
      omega
  · rcases h.live.parent hr p hp with hheld | ⟨hstart, hlast⟩
    · exact hheld
    · cases isPrefill with
      | false =>
        have hdone := h.decoded rfl
        have hpart := h.live.partialHit
        omega
      | true =>
        have hlen : seq.prefixCacheHitLen ≠ 0 := by
          intro hzero
          rw [h.live.noHit hzero] at hlast
          cases hlast
        obtain ⟨bs, hbs⟩ := h.linked rfl hlen
        obtain ⟨b, hb, hlast'⟩ := h.live.attached bs hbs
        rw [hlast] at hlast'
        cases hlast'
        exact ⟨b, mem_heldBlocks.mpr (.inl ⟨bs, hbs, hb⟩), rfl⟩

/-! ### After a step -/

theorem Batched.turnState {isPrefill : Bool} (h : Batched cfg isPrefill seq c)
    (hr : records c seq = true) :
    (turnState cfg isPrefill seq c).pendingTokens.length < cfg.blockSize ∧
      ((prefilled isPrefill seq).numPrefilledTokens < seq.numPromptTokens →
        (turnState cfg isPrefill seq c).pendingTokens.length =
          (prefilled isPrefill seq).numPrefilledTokens % cfg.blockSize) := by
  have hpos : 0 < cfg.blockSize := cfg.index.blockSize_pos
  obtain ⟨hlt, heq⟩ := h.live.pending hr
  have hle := (h.ready.fits hr).2
  -- In a prefill step the chunk is what is added, and it stays within the block.
  have hmod : isPrefill = true →
      (prefilled isPrefill seq).numPrefilledTokens % cfg.blockSize =
        ((stateOf c seq).pendingTokens.length + (stepTokens isPrefill seq).length) %
          cfg.blockSize := by
    rintro rfl
    have hchunk := h.chunk rfl
    have hwithin := hchunk.within
    have hchunkPos := hchunk.pos
    rw [hchunk.length_stepTokens h.live.prompt, heq (by omega)]
    show (seq.numPrefilledTokens + seq.currentChunkSize) % cfg.blockSize = _
    rw [Nat.mod_add_mod]
  have hdone : (prefilled isPrefill seq).numPrefilledTokens < seq.numPromptTokens →
      isPrefill = true := by
    intro hmore
    by_contra hno
    rw [Bool.not_eq_true] at hno
    have hdecoded := h.decoded hno
    rw [hno] at hmore
    have hsame : (prefilled false seq).numPrefilledTokens = seq.numPrefilledTokens := rfl
    omega
  unfold PrefixCacheCoordinator.turnState completedBlock
  simp only [hr, Bool.true_and, decide_eq_true_eq, List.length_append, if_true]
  by_cases hfull : (stateOf c seq).pendingTokens.length + (stepTokens isPrefill seq).length =
      cfg.blockSize
  · rw [if_pos hfull]
    refine ⟨hpos, fun hmore => ?_⟩
    rw [hmod (hdone hmore), hfull, Nat.mod_self]
    rfl
  · rw [if_neg hfull]
    dsimp only
    rw [List.length_append]
    refine ⟨lt_of_le_of_ne hle hfull, fun hmore => ?_⟩
    rw [hmod (hdone hmore), Nat.mod_eq_of_lt (lt_of_le_of_ne hle hfull)]

theorem Batched.after {isPrefill : Bool} (h : Batched cfg isPrefill seq c₁)
    (hrec : Recording cfg isPrefill c₁ step.batch c₂) (hhand : Handing cfg c₂ step.batch c₃)
    (hmem : seq ∈ step.batch) : LiveSequence cfg c₃ (prefilled isPrefill seq) := by
  have hafter := hrec.turns seq hmem
  have hfields : (prefilled isPrefill seq).seqId = seq.seqId ∧
      (prefilled isPrefill seq).prefixCacheHitLen = seq.prefixCacheHitLen ∧
      (prefilled isPrefill seq).prefixCacheHitLastBlockId = seq.prefixCacheHitLastBlockId ∧
      (prefilled isPrefill seq).numPromptTokens = seq.numPromptTokens ∧
      (prefilled isPrefill seq).tokenIds = seq.tokenIds ∧
      seq.numPrefilledTokens ≤ (prefilled isPrefill seq).numPrefilledTokens := by
    unfold prefilled
    split
    · exact ⟨rfl, rfl, rfl, rfl, rfl, Nat.le_add_right _ _⟩
    · exact ⟨rfl, rfl, rfl, rfl, rfl, le_rfl⟩
  have hstate : stateOf c₃ (prefilled isPrefill seq) = stateOf c₂ seq := by
    unfold prefilled stateOf
    rw [hhand.runtime]
    split <;> rfl
  have hrecords : records c₃ (prefilled isPrefill seq) = records c₂ seq := by
    unfold prefilled records
    rw [hhand.limited]
    split <;> rfl
  obtain ⟨hid, hhit, hlast, hprompt, htokens, hgrow⟩ := hfields
  have hlive := h.live
  refine ⟨hhit ▸ hlive.aligned, hhit ▸ hprompt ▸ hlive.partialHit, ?_, ?_, ?_, fun bs hbs => ?_,
    fun hr => ?_, fun hr p hp => ?_⟩
  · rw [hhit, hlast]
    exact hlive.noHit
  · rw [hprompt, htokens]
    exact hlive.prompt
  · rw [hhit]
    exact hlive.le.trans hgrow
  · rw [hid, hhand.prefixBlocks, hrec.prefixBlocks] at hbs
    rw [hlast]
    exact hlive.attached bs hbs
  · rw [hrecords] at hr
    rw [hstate, hafter.state hr, hprompt]
    exact h.turnState (hafter.recorded hr)
  · rw [hrecords] at hr
    rw [hstate] at hp
    rw [hid]
    refine .inl ?_
    rcases hafter.held hr p hp with hheld | hprod
    · exact hhand.holds _ p hheld
    · exact holds_of_count (hhand.once seq hmem p hprod)

omit [LinearOrder ι] in
theorem get?_postprocess_notMem (isPrefill : Bool) :
    ∀ (batch : List (MixedSequence ι)) (d : Dict Nat (MixedSequence ι)) {k : Nat},
    k ∉ batch.map (·.seqId) →
    (batch.foldl (fun d seq => d.set seq.seqId (prefilled isPrefill seq)) d).get? k = d.get? k
  | [], _, _, _ => rfl
  | seq :: batch, d, k, hk => by
    rw [List.map_cons, List.mem_cons, not_or] at hk
    rw [List.foldl_cons, get?_postprocess_notMem isPrefill batch _ hk.2, Dict.get?_set_ne _ _ hk.1]

omit [LinearOrder ι] in
theorem get?_postprocess_mem (isPrefill : Bool) :
    ∀ (batch : List (MixedSequence ι)) (d : Dict Nat (MixedSequence ι)),
    (batch.map (·.seqId)).Nodup → ∀ seq ∈ batch,
    (batch.foldl (fun d seq => d.set seq.seqId (prefilled isPrefill seq)) d).get? seq.seqId =
      some (prefilled isPrefill seq)
  | [], _, _, _, hmem => absurd hmem List.not_mem_nil
  | first :: batch, d, hnodup, seq, hmem => by
    rw [List.map_cons, List.nodup_cons] at hnodup
    rw [List.foldl_cons]
    rcases List.mem_cons.mp hmem with rfl | hmem
    · rw [get?_postprocess_notMem isPrefill batch _ hnodup.1, Dict.get?_set, if_pos rfl]
    · exact get?_postprocess_mem isPrefill batch _ hnodup.2 seq hmem

theorem MixedEngine.Inv.stepped (h : MixedEngine.Inv cfg e) (hs : step.Schedules cfg e)
    (hp : Prepared step e.coordinator c₁) (hrec : Recording cfg step.isPrefill c₁ step.batch c₂)
    (hhand : Handing cfg c₂ step.batch c₃) :
    MixedEngine.Inv cfg { coordinator := c₃, sequences := step.postprocess e.sequences } := by
  have hmemIds : ∀ k, k ∈ step.batch.map (·.seqId) → ∃ seq ∈ step.batch, seq.seqId = k :=
    fun k hk => mem_map.mp hk
  refine ⟨hhand.holding, hhand.balanced, fun k => ?_, fun k s hget => ?_, fun k hget => ?_,
    fun k s hget => ?_⟩
  · by_cases hk : k ∈ step.batch.map (·.seqId)
    · obtain ⟨seq, hmem, rfl⟩ := hmemIds k hk
      exact hhand.cleared seq hmem
    · rw [(hhand.rest k hk).2.1, (hhand.rest k hk).2.2]
      exact hrec.idle k hk
  · by_cases hk : k ∈ step.batch.map (·.seqId)
    · obtain ⟨seq, hmem, rfl⟩ := hmemIds k hk
      have hget' := get?_postprocess_mem step.isPrefill step.batch e.sequences hs.nodup seq hmem
      cases hget'.symm.trans hget
      unfold prefilled
      split <;> rfl
    · exact h.keys k s ((get?_postprocess_notMem step.isPrefill step.batch e.sequences hk).symm.trans
        hget)
  · have hk : k ∉ step.batch.map (·.seqId) := by
      intro hk
      obtain ⟨seq, hmem, rfl⟩ := hmemIds k hk
      have hget' := get?_postprocess_mem step.isPrefill step.batch e.sequences hs.nodup seq hmem
      cases hget'.symm.trans hget
    have hold : e.sequences.get? k = none :=
      (get?_postprocess_notMem step.isPrefill step.batch e.sequences hk).symm.trans hget
    obtain ⟨hpre, hrun, hlim⟩ := h.dead k hold
    refine ⟨?_, ?_, ?_⟩
    · rw [hhand.prefixBlocks, hrec.prefixBlocks, hp.others k (.inl hk)]
      exact hpre
    · rw [hhand.runtime, hrec.runtime k hk, hp.runtime]
      exact hrun
    · rw [hhand.limited, hrec.limited k hk, hp.limited]
      exact hlim
  · by_cases hk : k ∈ step.batch.map (·.seqId)
    · obtain ⟨seq, hmem, rfl⟩ := hmemIds k hk
      have hget' := get?_postprocess_mem step.isPrefill step.batch e.sequences hs.nodup seq hmem
      cases hget'.symm.trans hget
      exact (h.batched hs hp hmem).after hrec hhand hmem
    · have hold : e.sequences.get? k = some s :=
        (get?_postprocess_notMem step.isPrefill step.batch e.sequences hk).symm.trans hget
      have hid : s.seqId = k := h.keys k s hold
      subst hid
      refine (h.live _ s hold).transfer ?_ ?_ ?_ fun x hx => ?_
      · rw [hhand.prefixBlocks, hrec.prefixBlocks, hp.others _ (.inl hk)]
      · rw [hhand.runtime, hrec.runtime _ hk, hp.runtime]
      · rw [hhand.limited, hrec.limited _ hk, hp.limited]
      · exact hhand.holds _ x (hrec.holds _ x (hp.holds _ x hx))

end

section

variable {cfg : CoordinatorConfig ι κ μ} {c c₁ c₂ c₃ : PrefixCacheCoordinator ι κ μ}
  {e : MixedEngine ι κ μ} {step : MixedStep ι μ}

theorem prepare_keeping (step : MixedStep ι μ) : Along (Keeping cfg) (step.prepare cfg) := by
  have hmanagers : Along (Keeping cfg)
      (PyM.modify fun c : PrefixCacheCoordinator ι κ μ => { c with managers := step.managers }) :=
    fun c hb => hb.undisturbed (undisturbed_rfl hb.wf rfl rfl rfl rfl rfl rfl rfl rfl)
  unfold MixedStep.prepare
  dsimp only
  split
  · exact along_bind (attachPrefixCacheHits_keeping step.batch) fun _ =>
      along_bind (evictForSlots_keeping step.neededSlots) fun _ => hmanagers
  · exact along_bind (evictForSlots_keeping step.neededSlots) fun _ => hmanagers

theorem MixedEngine.Inv.recording (h : MixedEngine.Inv cfg e) (hs : step.Schedules cfg e)
    (hprep : step.prepare cfg e.coordinator = (.ok (), c₁))
    (hbelow : recordsBelowDevice cfg step.isPrefill step.batch c₁ = true)
    (hrec : recordStepTokens cfg step.batch step.isPrefill c₁ = (.ok (), c₂)) :
    Prepared step e.coordinator c₁ ∧ Recording cfg step.isPrefill c₁ step.batch c₂ := by
  have hp : Prepared step e.coordinator c₁ :=
    (wp_of_ok hprep).mp (prepare_prepared h.holding hs.nodup)
  have hb : Balanced cfg c₁ := by
    have hkeep := prepare_keeping step e.coordinator h.balanced
    rw [hprep] at hkeep
    exact hkeep
  have hidle : Idle c₁ := fun k => by
    unfold pendings duplicates
    rw [hp.pending, hp.duplicates]
    exact h.idle k
  have hloop := record_loop cfg.index.blockSize_pos step.batch [] c₁
    (.start hp.holding hb hidle) hs.nodup (fun seq hmem => (h.batched hs hp hmem).ready) hbelow
  exact ⟨hp, (wp_of_ok hrec).mp hloop⟩

variable {isPrefill : Bool} {batch : List (MixedSequence ι)}

theorem PrefixCacheCoordinator.Recording.commits (h : Recording cfg isPrefill c₁ batch c₂)
    (hnodup : (batch.map (·.seqId)).Nodup) :
    wp (commitPendingBlocks cfg batch) (fun _ c₃ => Handing cfg c₂ batch c₃)
      (fun _ _ => ¬ MarksReturn cfg batch c₂) c₂ :=
  commit_loop batch [] c₂ (.start h.holding h.balanced) hnodup h

theorem MixedEngine.Run.inv (h : MixedEngine.Run cfg e) : MixedEngine.Inv cfg e := by
  induction h with
  | start managers => exact .start managers
  | admission seq _ hnew ha ih => exact ih.admission hnew ha
  | managers managers _ ih =>
    exact ih.kept ⟨.refl ih.holding.wf, rfl⟩
      (ih.balanced.undisturbed (undisturbed_rfl ih.holding.wf rfl rfl rfl rfl rfl rfl rfl rfl))
  | @pollOffload e c _ hrun ih =>
    have hsteady : Along Steady (PrefixCacheCoordinator.pollOffload cfg) := tolerates_steady.pollOffload
    have hquiet : Along Quiet (PrefixCacheCoordinator.pollOffload cfg) :=
      tolerates_quiet.pollOffload
    have hk := ih.holding.steady hsteady
    have hb : Balanced cfg _ := Quiet.keeping hquiet e.coordinator ih.balanced
    rw [hrun] at hk hb
    exact ih.kept hk hb
  | @evictForSlots e c needed _ hrun ih =>
    have hsteady : Along Steady (PrefixCacheCoordinator.evictForSlots cfg needed) :=
      evictForSlots_steady needed
    have hkeeping : Along (Keeping cfg) (PrefixCacheCoordinator.evictForSlots cfg needed) :=
      evictForSlots_keeping needed
    have hk := ih.holding.steady hsteady
    have hb := hkeeping e.coordinator ih.balanced
    rw [hrun] at hk hb
    exact ih.kept hk hb
  | @release e c seqId _ hrun ih =>
    have hd : Dismissed seqId e.coordinator c :=
      (wp_of_ok hrun).mp (releaseSeq_dismissed ih.holding (ih.idle seqId).1)
    have hkeeping : Along (Keeping cfg) (releaseSeq cfg seqId) := releaseSeq_keeping seqId
    have hb := hkeeping e.coordinator ih.balanced
    rw [hrun] at hb
    exact ih.release hd hb
  | @step e c₁ c₂ c₃ step _ hs hprep hbelow hrec hcommit ih =>
    obtain ⟨hp, hrecording⟩ := ih.recording hs hprep hbelow hrec
    exact ih.stepped hs hp hrecording ((wp_of_ok hcommit).mp (hrecording.commits hs.nodup))

variable {id : ι}

theorem Accounts.owner_unique (hb : Balanced cfg c) {k k' : Nat}
    (hk : id ∈ (pendings c k).map (·.stableBlockId))
    (hk' : id ∈ (pendings c k').map (·.stableBlockId)) : k = k' := by
  by_contra hne
  have hids := hb.ids id
  have hone : pendingCount c id ≤ 1 := by
    split at hids <;> omega
  have hget : ∀ j, id ∈ (pendings c j).map (·.stableBlockId) →
      ∃ ps, c.pendingBlocks.get? j = some ps ∧ 0 < (ps.map (·.stableBlockId)).count id := by
    intro j hj
    unfold pendings at hj
    cases hps : c.pendingBlocks.get? j with
    | none =>
      rw [hps] at hj
      cases hj
    | some ps =>
      rw [hps] at hj
      exact ⟨ps, rfl, count_pos_iff.mpr hj⟩
  obtain ⟨ps, hps, hpos⟩ := hget k hk
  obtain ⟨ps', hps', hpos'⟩ := hget k' hk'
  have herase := sumBy_erase (fun (_ : Nat) (ps : List (PendingMixedPrefixBlock ι κ)) =>
    (ps.map (·.stableBlockId)).count id) hps
  have hle := le_sumBy (fun (_ : Nat) (ps : List (PendingMixedPrefixBlock ι κ)) =>
    (ps.map (·.stableBlockId)).count id) (c.pendingBlocks.erase k) k'
  rw [weightAt, get?_erase_ne _ (Ne.symm hne), hps'] at hle
  dsimp only [Option.elim] at hle
  unfold pendingCount at hone
  omega

omit [LinearOrder ι] in
theorem sum_count_produced [DecidableEq ι] {f : Nat → List ι}
    (h : ∀ seq ∈ batch, (f seq.seqId).length ≤ 1) :
    (batch.map fun seq => (f seq.seqId).count id).sum =
      (batch.filter fun seq => decide (id ∈ f seq.seqId)).length := by
  induction batch with
  | nil => rfl
  | cons seq batch ih =>
    rw [List.map_cons, List.sum_cons, ih fun s hs => h s (List.mem_cons_of_mem _ hs),
      List.filter_cons]
    have hle := (List.count_le_length (a := id) (l := f seq.seqId)).trans
      (h seq List.mem_cons_self)
    split
    · next hmem =>
      have hpos : 0 < (f seq.seqId).count id := count_pos_iff.mpr (by simpa using hmem)
      rw [length_cons]
      omega
    · next hmem =>
      rw [count_eq_zero.mpr (by simpa using hmem), Nat.zero_add]

omit [LinearOrder ι] in
theorem nextLogicalBlockIdx_turnState (isPrefill : Bool) (seq : MixedSequence ι) :
    (turnState cfg isPrefill seq c).nextLogicalBlockIdx ≤ (stateOf c seq).nextLogicalBlockIdx + 1 := by
  unfold turnState
  dsimp only
  split
  · exact le_rfl
  · split
    · exact Nat.le_succ _
    · exact Nat.le_succ _

theorem PrefixCacheCoordinator.Recording.owner {seq : MixedSequence ι}
    (h : Recording cfg isPrefill c₁ batch c₂) (hmem : seq ∈ batch)
    (hid : id ∈ produced c₂ seq.seqId) :
    ∃ owner ∈ batch, id ∈ (pendings c₂ owner.seqId).map (·.stableBlockId) := by
  rcases List.mem_append.mp hid with hown | hdup
  · exact ⟨seq, hmem, hown⟩
  · obtain ⟨pre, post, hsplit⟩ := append_of_mem hmem
    obtain ⟨owner, howner, hown⟩ := h.ordered pre seq post hsplit id hdup
    exact ⟨owner, hsplit ▸ mem_append_left _ howner, hown⟩

/-! ### The protocol of a step -/

structure InsertedOnce (batch : List (MixedSequence ι)) (c₂ c₃ : PrefixCacheCoordinator ι κ μ)
    (id : ι) : Prop where
  absent : c₂.prefixCache.blocks.get? id = none
  owner : ∃ owner ∈ batch, (pendings c₂ owner.seqId).map (·.stableBlockId) = [id] ∧
    ∀ k, id ∈ (pendings c₂ k).map (·.stableBlockId) → k = owner.seqId
  indexed : ∃ b, c₃.prefixCache.blocks.get? id = some b ∧
    b.refCount = (batch.filter fun seq => decide (id ∈ produced c₂ seq.seqId)).length
  once : ∀ seq ∈ batch, id ∈ produced c₂ seq.seqId →
    ((heldBlocks c₃ seq.seqId).map (·.stableBlockId)).count id = 1

/-- The protocol of a step that starts to record in `c₁`. -/
structure StepProtocol (cfg : CoordinatorConfig ι κ μ) (step : MixedStep ι μ)
    (c₁ : PrefixCacheCoordinator ι κ μ) : Prop where
  chunks : step.isPrefill = true → ∀ seq ∈ step.batch,
    seq.currentChunkSize ≤ cfg.blockSize - seq.numPrefilledTokens % cfg.blockSize
  unchecked : recordStepTokens cfg step.batch step.isPrefill c₁ =
    PyM.forEach (recordUnchecked cfg step.isPrefill) step.batch c₁
  single : ∀ c₂, recordStepTokens cfg step.batch step.isPrefill c₁ = (.ok (), c₂) →
    ∀ seq ∈ step.batch, (produced c₂ seq.seqId).length ≤ 1 ∧ (records c₂ seq = true →
      (stateOf c₂ seq).nextLogicalBlockIdx ≤ (stateOf c₁ seq).nextLogicalBlockIdx + 1)
  commits : ∀ c₂, recordStepTokens cfg step.batch step.isPrefill c₁ = (.ok (), c₂) →
    MarksReturn cfg step.batch c₂ → ∃ c₃, commitPendingBlocks cfg step.batch c₂ = (.ok (), c₃) ∧
      c₃.prefixCache.epochs.insert = c₂.prefixCache.epochs.insert +
        (step.batch.map fun seq => (pendings c₂ seq.seqId).length).sum ∧
      ∀ seq ∈ step.batch, ∀ id ∈ produced c₂ seq.seqId, InsertedOnce step.batch c₂ c₃ id

theorem PrefixCacheCoordinator.Handing.insertedOnce {seq : MixedSequence ι}
    (hhand : Handing cfg c₂ batch c₃) (hrec : Recording cfg isPrefill c₁ batch c₂)
    (hmem : seq ∈ batch) (hid : id ∈ produced c₂ seq.seqId) : InsertedOnce batch c₂ c₃ id := by
  obtain ⟨owner, howner, hown⟩ := hrec.owner hmem hid
  have hlength := (hrec.turns owner howner).single
  have habsent : c₂.prefixCache.blocks.get? id = none := by
    obtain ⟨p, hp, rfl⟩ := mem_map.mp hown
    exact Accounts.absent_of_pending hrec.balanced hp
  have honly : (pendings c₂ owner.seqId).map (·.stableBlockId) = [id] := by
    unfold produced at hlength
    rw [List.length_append] at hlength
    obtain ⟨x, hx⟩ := length_eq_one_iff.mp
      (le_antisymm ((Nat.le_add_right _ _).trans hlength) (length_pos_of_mem hown))
    rw [hx] at hown ⊢
    rw [List.mem_singleton.mp hown]
  have hheld := holds_of_count (hhand.once seq hmem id hid)
  obtain ⟨b, hb, -⟩ := hheld.referenced hhand.holding
  refine ⟨habsent, ⟨owner, howner, honly, fun k hk => Accounts.owner_unique hrec.balanced hk hown⟩,
    ⟨b, hb, ?_⟩, fun s hs => hhand.once s hs id⟩
  rw [hhand.holding.counts id b hb, hhand.refs, refs_of_absent hrec.holding habsent, Nat.zero_add]
  exact congrArg Nat.cast (sum_count_produced fun s hs => (hrec.turns s hs).single)

/-- In every run that inserts no block below a parent on the host only, each step keeps the protocol;
its commit returns when the marks of the payloads it built do. -/
theorem mixed_step_protocol
    (h : MixedEngine.Run cfg e) (hs : step.Schedules cfg e)
    (hprep : step.prepare cfg e.coordinator = (.ok (), c₁))
    (hbelow : recordsBelowDevice cfg step.isPrefill step.batch c₁ = true) :
    StepProtocol cfg step c₁ := by
  have hinv := h.inv
  have hp : Prepared step e.coordinator c₁ :=
    (wp_of_ok hprep).mp (prepare_prepared hinv.holding hs.nodup)
  refine ⟨fun hpre seq hmem => ((hinv.batched hs hp hmem).chunk hpre).bounded, ?_,
    fun c₂ hrec seq hmem => ?_, fun c₂ hrec hmarks => ?_⟩
  · have hsame : recordStepTokens cfg step.batch step.isPrefill =
        PyM.forEach (recordUnchecked cfg step.isPrefill) step.batch :=
      PyM.forEach_congr fun seq hmem =>
        recordSeqTokens_unchecked (hinv.batched hs hp hmem).ready.bounded
    rw [hsame]
  · have hafter := (hinv.recording hs hprep hbelow hrec).2.turns seq hmem
    refine ⟨hafter.single, fun hr => ?_⟩
    rw [hafter.state hr]
    exact nextLogicalBlockIdx_turnState step.isPrefill seq
  · have hrecording := (hinv.recording hs hprep hbelow hrec).2
    obtain ⟨⟨⟩, c₃, hcommit, hhand⟩ := exists_of_wp (wp_mono (hrecording.commits hs.nodup)
      (fun _ _ hh => hh) fun _ _ hraised => hraised hmarks)
    exact ⟨c₃, hcommit, hhand.inserts,
      fun seq hmem id hid => hhand.insertedOnce hrecording hmem hid⟩

end

def demoPrompt (seqId : Nat) : MixedSequence Nat :=
  { seqId := seqId, tokenIds := [1, 2, 3], numPromptTokens := 3 }

def demoChunk : ChunkInputs :=
  { mode := .chunked, freeSlots := 8, stepFreeCount := 8, remainingPrefillTokens := 3,
    prefillStageRemaining := 3, maxNumBatchedTokens := 8, enginePrefillChunkSize := 8 }

def demoStep : MixedStep Nat Unit where
  isPrefill := true
  batch := [{ demoPrompt 0 with currentChunkSize := 2 }, { demoPrompt 1 with currentChunkSize := 2 }]
  neededSlots := 0
  managers := ()

def demoAdmitted : MixedEngine Nat Unit Unit where
  coordinator := initial demoCoordinatorConfig ()
  sequences := (empty.set 0 (demoPrompt 0)).set 1 (demoPrompt 1)

theorem demoPrompt_admitted (seqId : Nat) : Admitted demoCoordinatorConfig (demoPrompt seqId) :=
  ⟨rfl, rfl, Nat.succ_pos 2, fun _ => rfl, le_rfl⟩

theorem demoAdmitted_run : MixedEngine.Run demoCoordinatorConfig demoAdmitted :=
  .admission (demoPrompt 1) (.admission (demoPrompt 0) (.start ()) rfl (demoPrompt_admitted 0)) rfl
    (demoPrompt_admitted 1)

theorem demoStep_schedules : demoStep.Schedules demoCoordinatorConfig demoAdmitted where
  nodup := by decide
  live := by
    intro seq hmem
    have hcases : seq = { demoPrompt 0 with currentChunkSize := 2 } ∨
        seq = { demoPrompt 1 with currentChunkSize := 2 } := by
      simpa [demoStep] using hmem
    rcases hcases with rfl | rfl
    · exact ⟨demoPrompt 0, rfl, demoChunk, by decide, rfl⟩
    · exact ⟨demoPrompt 1, rfl, demoChunk, by decide, rfl⟩

/-- Both wait for the block of tokens `[1, 2]`. -/
theorem mixed_step_protocol_demo :
    ∃ c₁, demoStep.prepare demoCoordinatorConfig demoAdmitted.coordinator = (.ok (), c₁) ∧
      (let c₂ := (recordStepTokens demoCoordinatorConfig demoStep.batch true c₁).2
      produced c₂ 0 = [6760] ∧ produced c₂ 1 = [6760]) ∧
      StepProtocol demoCoordinatorConfig demoStep c₁ :=
  ⟨_, Prod.ext (by decide +kernel) rfl, by decide +kernel,
    mixed_step_protocol demoAdmitted_run demoStep_schedules
      (Prod.ext (by decide +kernel) rfl) (by decide +kernel)⟩

def slotManagers : MixedManagers Nat Unit where
  numFreeSlots := id
  deviceSlotCount := fun _ _ => some 1
  validatePrefixKvAttach := fun _ => pure false
  attachPrefixKvPayloads := fun _ _ => pure ()
  rollbackPrefixKvAttach := fun _ _ _ => pure ()
  buildPrefixKvPayload := fun _ _ _ => pure ()
  prefixKvPayloadNbytes := fun _ => pure 16
  markMaterializedPrefixKvPayload := fun _ _ => pure ()
  rollbackMaterializedPrefixKvPayload := fun _ _ => pure ()
  freePrefixKvPayload := fun _ => PyM.modify (· + 1)
  freePrefixKvPayloadDevice := fun _ => PyM.modify (· + 1)
  allocatePrefixKvPayloadsDevice := fun payloads => PyM.modify (· - payloads.length)
  buildPrefixRecurrentPayload := fun _ _ => pure 8
  attachPrefixRecurrentPayload := fun _ _ _ => pure ()

def slotConfig : CoordinatorConfig Nat Unit Nat where
  index :=
    { blockSize := 1
      maxBlocks := none
      hashBlock := fun tokens parent => tokens.foldl (fun h t => 31 * h + t.toNat) (parent.getD 7)
      blockSize_pos := Nat.one_pos
      maxBlocks_pos := noLimit_pos }
  managers := slotManagers
  maxRecurrentBytes := 64
  recurrentSnapshotNbytes := 8
  hostCapacity := some 4
  d2hReady := fun _ => 10

namespace HostParent

/-- A sequence with the prompt `[1, 2]`. -/
def first : MixedSequence Nat := { seqId := 0, tokenIds := [1, 2], numPromptTokens := 2 }

def later (seqId : Nat) : MixedSequence Nat :=
  { first with
    seqId := seqId
    numPrefilledTokens := 1
    prefixCacheHitLen := 1
    prefixCacheHitBlockCount := 1
    prefixCacheHitLastBlockId := some 218 }

def chunk : ChunkInputs :=
  { mode := .chunked, freeSlots := 8, stepFreeCount := 8, remainingPrefillTokens := 1,
    prefillStageRemaining := 1, maxNumBatchedTokens := 8, enginePrefillChunkSize := 8 }

def prefillOne : MixedStep Nat Nat := ⟨true, [{ first with currentChunkSize := 1 }], 0, 7⟩

def prefillTwo : MixedStep Nat Nat :=
  ⟨true, [{ first with numPrefilledTokens := 1, currentChunkSize := 1 }], 0, 6⟩

def prefillLater : MixedStep Nat Nat :=
  ⟨true, [{ later 1 with currentChunkSize := 1 }, { later 2 with currentChunkSize := 1 }], 0, 5⟩

/-- A sequence that decodes the token `3` after its prompt. -/
def decoding (seqId : Nat) : MixedSequence Nat :=
  { later seqId with numPrefilledTokens := 2, currentChunkSize := 1, decodeInputToken := 3 }

/-- Both sequences decode the token `3`. -/
def decodeLater : MixedStep Nat Nat := ⟨false, [decoding 1, decoding 2], 0, 3⟩

def stepped (step : MixedStep Nat Nat) (c : PrefixCacheCoordinator Nat Unit Nat) :
    PrefixCacheCoordinator Nat Unit Nat :=
  let c₁ := (step.prepare slotConfig c).2
  let c₂ := (recordStepTokens slotConfig step.batch step.isPrefill c₁).2
  (commitPendingBlocks slotConfig step.batch c₂).2

@[irreducible]
def ran : PrefixCacheCoordinator Nat Unit Nat :=
  stepped prefillTwo (stepped prefillOne (initial slotConfig 8))

@[irreducible]
def released : PrefixCacheCoordinator Nat Unit Nat := (releaseSeq slotConfig 0 ran).2

@[irreducible]
def polled : PrefixCacheCoordinator Nat Unit Nat := (pollOffload slotConfig released).2

@[irreducible]
def demoted : PrefixCacheCoordinator Nat Unit Nat := (evictForSlots slotConfig 1 polled).2

def remaining : Dict Nat (MixedSequence Nat) :=
  (prefillTwo.postprocess (prefillOne.postprocess (empty.set 0 first))).erase 0

def engine : MixedEngine Nat Unit Nat where
  coordinator := stepped prefillLater demoted
  sequences := prefillLater.postprocess ((remaining.set 1 (later 1)).set 2 (later 2))

theorem first_scheduled (prefilledTokens : Nat) (h : prefilledTokens < 2) :
    Scheduled slotConfig true { first with numPrefilledTokens := prefilledTokens }
      { first with numPrefilledTokens := prefilledTokens, currentChunkSize := 1 } := by
  refine ⟨chunk, ?_, ?_⟩
  · interval_cases prefilledTokens <;> decide
  · interval_cases prefilledTokens <;> rfl

theorem run_stepped {c : PrefixCacheCoordinator Nat Unit Nat} {d : Dict Nat (MixedSequence Nat)}
    (step : MixedStep Nat Nat) (h : MixedEngine.Run slotConfig ⟨c, d⟩)
    (hs : step.Schedules slotConfig ⟨c, d⟩)
    (hreturns : let c₁ := (step.prepare slotConfig c).2
      let c₂ := (recordStepTokens slotConfig step.batch step.isPrefill c₁).2
      (step.prepare slotConfig c).1 = .ok () ∧
        recordsBelowDevice slotConfig step.isPrefill step.batch c₁ = true ∧
        (recordStepTokens slotConfig step.batch step.isPrefill c₁).1 = .ok () ∧
        (commitPendingBlocks slotConfig step.batch c₂).1 = .ok ()) :
    MixedEngine.Run slotConfig ⟨stepped step c, step.postprocess d⟩ := by
  obtain ⟨hprep, hbelow, hrec, hcommit⟩ := hreturns
  exact .step step h hs (Prod.ext hprep rfl) hbelow (Prod.ext hrec rfl) (Prod.ext hcommit rfl)

theorem returned {m : CoordM Nat Unit Nat Unit} {c : PrefixCacheCoordinator Nat Unit Nat}
    (h : (m c).1 = .ok ()) : m c = (.ok (), (m c).2) := Prod.ext h rfl

theorem run_ran : MixedEngine.Run slotConfig
    ⟨ran, prefillTwo.postprocess (prefillOne.postprocess (empty.set 0 first))⟩ := by
  have hfirst : MixedEngine.Run slotConfig ⟨initial slotConfig 8, empty.set 0 first⟩ :=
    .admission first (.start 8) rfl ⟨rfl, rfl, Nat.succ_pos 1, fun _ => rfl, le_rfl⟩
  have hone := run_stepped prefillOne hfirst
    ⟨by decide, fun seq hmem => by
      rw [List.mem_singleton.mp hmem]
      exact ⟨first, rfl, first_scheduled 0 (by decide)⟩⟩ (by decide +kernel)
  unfold ran
  exact run_stepped prefillTwo hone
    ⟨by decide, fun seq hmem => by
      rw [List.mem_singleton.mp hmem]
      exact ⟨{ first with numPrefilledTokens := 1, currentChunkSize := 1 }, rfl,
        first_scheduled 1 (by decide)⟩⟩ (by decide +kernel)

theorem run_demoted : MixedEngine.Run slotConfig ⟨demoted, remaining⟩ := by
  have hrelease : releaseSeq slotConfig 0 ran = (.ok (), released) := by
    unfold released
    exact returned (by decide +kernel)
  have hpoll : pollOffload slotConfig released = (.ok (), polled) := by
    unfold polled
    exact returned (by decide +kernel)
  have hevict : evictForSlots slotConfig 1 polled = (.ok (), demoted) := by
    unfold demoted
    exact returned (by decide +kernel)
  exact ((run_ran.release 0 hrelease).pollOffload hpoll).evictForSlots 1 hevict

theorem later_admitted (seqId : Nat) : Admitted slotConfig (later seqId) :=
  ⟨rfl, Nat.mod_one _, Nat.lt_succ_self 1, fun h => absurd h (Nat.succ_ne_zero 0), le_rfl⟩

theorem prefillLater_schedules : prefillLater.Schedules slotConfig
    ⟨demoted, (remaining.set 1 (later 1)).set 2 (later 2)⟩ where
  nodup := by decide
  live := by
    intro seq hmem
    have hcases : seq = { later 1 with currentChunkSize := 1 } ∨
        seq = { later 2 with currentChunkSize := 1 } := by
      simpa [prefillLater] using hmem
    rcases hcases with rfl | rfl
    · exact ⟨later 1, rfl, chunk, by decide, rfl⟩
    · exact ⟨later 2, rfl, chunk, by decide, rfl⟩

theorem run_engine : MixedEngine.Run slotConfig engine := by
  have hone : MixedEngine.Run slotConfig ⟨demoted, remaining.set 1 (later 1)⟩ :=
    run_demoted.admission (later 1) rfl (later_admitted 1)
  have htwo : MixedEngine.Run slotConfig ⟨demoted, (remaining.set 1 (later 1)).set 2 (later 2)⟩ :=
    hone.admission (later 2) rfl (later_admitted 2)
  unfold engine
  exact run_stepped prefillLater htwo prefillLater_schedules (by decide +kernel)

theorem decodeLater_schedules : decodeLater.Schedules slotConfig engine where
  nodup := by decide
  live := by
    intro seq hmem
    have hcases : seq = decoding 1 ∨ seq = decoding 2 := by
      simpa [decodeLater] using hmem
    rcases hcases with rfl | rfl
    · exact ⟨{ later 1 with numPrefilledTokens := 2, currentChunkSize := 1 }, rfl, by decide, 3, rfl⟩
    · exact ⟨{ later 2 with numPrefilledTokens := 2, currentChunkSize := 1 }, rfl, by decide, 3, rfl⟩

end HostParent

/-- Two sequences decode the same block below a demoted block that they took as their parent. -/
theorem mixed_step_protocol_host_parent :
    let c := HostParent.engine.coordinator
    let c₁ := (HostParent.decodeLater.prepare slotConfig c).2
    let c₂ := (recordStepTokens slotConfig HostParent.decodeLater.batch false c₁).2
    MixedEngine.Run slotConfig HostParent.engine ∧
      HostParent.decodeLater.Schedules slotConfig HostParent.engine ∧
      HostParent.decodeLater.prepare slotConfig c = (.ok (), c₁) ∧
      recordStepTokens slotConfig HostParent.decodeLater.batch false c₁ = (.ok (), c₂) ∧
      produced c₂ 1 = [209563] ∧ produced c₂ 2 = [209563] ∧
      (commitPendingBlocks slotConfig HostParent.decodeLater.batch c₂).1 =
        .error (.runtimeError
          "Cannot insert a device-resident prefix block below a host-only parent.") ∧
      ¬ StepProtocol slotConfig HostParent.decodeLater c₁ := by
  intro c c₁ c₂
  have hrec : recordStepTokens slotConfig HostParent.decodeLater.batch false c₁ = (.ok (), c₂) :=
    HostParent.returned (by decide +kernel)
  have hraised : (commitPendingBlocks slotConfig HostParent.decodeLater.batch c₂).1 =
      .error (.runtimeError
        "Cannot insert a device-resident prefix block below a host-only parent.") := by
    decide +kernel
  refine ⟨HostParent.run_engine, HostParent.decodeLater_schedules,
    HostParent.returned (by decide +kernel), hrec, by decide +kernel, by decide +kernel, hraised,
    fun h => ?_⟩
  obtain ⟨c₃, hcommit, -⟩ := h.commits c₂ hrec ⟨fun _ _ => rfl, fun _ _ => rfl, trivial⟩
  rw [hcommit] at hraised
  cases hraised

/-- In every run the reference count of a block is the number of holds on it, and no eviction takes a
block that a sequence holds out of the index or off the device. -/
theorem run_references {cfg : CoordinatorConfig ι κ μ} {e : MixedEngine ι κ μ}
    (h : MixedEngine.Run cfg e) :
    (∀ id b, e.coordinator.prefixCache.blocks.get? id = some b →
      b.refCount = refs e.coordinator id) ∧
    (∀ seqId id, Holds e.coordinator seqId id →
      ∃ b, e.coordinator.prefixCache.blocks.get? id = some b ∧ 0 < b.refCount) ∧
    ∀ needed seqId id b, Holds e.coordinator seqId id →
      e.coordinator.prefixCache.blocks.get? id = some b →
      let c := (PrefixCacheCoordinator.evictForSlots cfg needed e.coordinator).2
      Holds c seqId id ∧ ∃ b', c.prefixCache.blocks.get? id = some b' ∧ b'.refCount = b.refCount ∧
        (b.residency.devicePresent = true → b'.residency.devicePresent = true) := by
  have hold := h.inv.holding
  refine ⟨hold.counts, fun seqId id hheld => hheld.referenced hold, fun needed seqId id b hheld hb => ?_⟩
  have hkept := hold.steady (m := PrefixCacheCoordinator.evictForSlots cfg needed)
    (evictForSlots_steady needed)
  obtain ⟨d, hd, hpos⟩ := hheld.referenced hold
  cases hb.symm.trans hd
  obtain ⟨b', hb', -, href, hdevice⟩ := hkept.index.get hb hpos
  exact ⟨hheld.tables hkept.tables, b', hb', href, hdevice⟩

/-- Two sequences hold the block 218. -/
theorem run_references_host_parent :
    (HostParent.engine.coordinator.prefixCache.blocks.get? 218).map (·.refCount) = some 2 ∧
    ∀ id b, HostParent.engine.coordinator.prefixCache.blocks.get? id = some b →
      b.refCount = refs HostParent.engine.coordinator id :=
  ⟨by decide +kernel, (run_references HostParent.run_engine).1⟩

end SparseEngine
