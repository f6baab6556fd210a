import SparseEngine.Mixed.Holding

/-! A step records its sequences one after the other. -/

namespace SparseEngine.PrefixCacheCoordinator

open PyM RadixPrefixIndex

variable {ι κ μ : Type} [LinearOrder ι]

def pendings (c : PrefixCacheCoordinator ι κ μ) (seqId : Nat) : List (PendingMixedPrefixBlock ι κ) :=
  (c.pendingBlocks.get? seqId).getD []

def duplicates (c : PrefixCacheCoordinator ι κ μ) (seqId : Nat) : List ι :=
  (c.pendingDuplicateRefs.get? seqId).getD []

def stateOf (c : PrefixCacheCoordinator ι κ μ) (seq : MixedSequence ι) : MixedPrefixRuntimeState ι :=
  (c.runtimeStates.get? seq.seqId).getD
    { parentBlockId := seq.prefixCacheHitLastBlockId
      nextLogicalBlockIdx := seq.prefixCacheHitBlockCount }

def stepTokens (isPrefill : Bool) (seq : MixedSequence ι) : List Int :=
  if isPrefill then
    if seq.currentChunkSize = 0 then []
    else if seq.currentChunkSize < seq.tokenIds.length then
      (seq.tokenIds.drop seq.numPrefilledTokens).take seq.currentChunkSize
    else seq.tokenIds
  else [seq.decodeInputToken]

def records (c : PrefixCacheCoordinator ι κ μ) (seq : MixedSequence ι) : Bool :=
  !seq.multimodal && decide (seq.seqId ∉ c.capacityLimitedSeqIds)

def completedBlock (cfg : CoordinatorConfig ι κ μ) (isPrefill : Bool) (seq : MixedSequence ι)
    (c : PrefixCacheCoordinator ι κ μ) : Option ι :=
  let state := stateOf c seq
  let tokens := state.pendingTokens ++ stepTokens isPrefill seq
  if records c seq && decide (tokens.length = cfg.blockSize) then
    some (cfg.index.hashBlock tokens state.parentBlockId)
  else none

def advanced (state : MixedPrefixRuntimeState ι) (id : ι) : MixedPrefixRuntimeState ι :=
  { state with
    parentBlockId := some id
    nextLogicalBlockIdx := state.nextLogicalBlockIdx + 1 }

/-- A turn touches its own sequence only and drops no reference. -/
structure TurnFrame (seqId : Nat) (c c' : PrefixCacheCoordinator ι κ μ) : Prop where
  holding : Holding c'
  stays : Stays c c'
  elsewhere : Elsewhere seqId c c'
  mono : ∀ x, Holds c seqId x → Holds c' seqId x
  limited : c.capacityLimitedSeqIds ⊆ c'.capacityLimitedSeqIds

/-- What comes of a completed block `id` below `parent`. -/
inductive AddOutcome (seqId : Nat) (parent : Option ι) (id : ι) (c c' : PrefixCacheCoordinator ι κ μ) :
    Prop
  | limited : seqId ∈ c'.capacityLimitedSeqIds → pendings c' seqId = pendings c seqId →
      duplicates c' seqId = duplicates c seqId → AddOutcome seqId parent id c c'
  | existing : Holds c' seqId id → pendings c' seqId = pendings c seqId →
      duplicates c' seqId = duplicates c seqId → AddOutcome seqId parent id c c'
  | duplicate : id ∈ c.pendingBlockIds → pendings c' seqId = pendings c seqId →
      duplicates c' seqId =
        (if id ∈ duplicates c seqId then duplicates c seqId else duplicates c seqId ++ [id]) →
      AddOutcome seqId parent id c c'
  | owner (p : PendingMixedPrefixBlock ι κ) : p.stableBlockId = id → p.parentBlockId = parent →
      c.prefixCache.blocks.get? id = none → id ∉ c.pendingBlockIds →
      pendings c' seqId = pendings c seqId ++ [p] → duplicates c' seqId = duplicates c seqId →
      AddOutcome seqId parent id c c'

/-- What `add_block` does to its sequence: unless the sequence has reached the limit, it goes
on below the block. -/
structure Added (cfg : CoordinatorConfig ι κ μ) (seqId : Nat) (blockTokens : List Int)
    (state : MixedPrefixRuntimeState ι) (c c' : PrefixCacheCoordinator ι κ μ) : Prop where
  frame : TurnFrame seqId c c'
  outcome : AddOutcome seqId state.parentBlockId
    (cfg.index.hashBlock blockTokens state.parentBlockId) c c'
  state : seqId ∉ c'.capacityLimitedSeqIds → runtimeState c' seqId =
    advanced state (cfg.index.hashBlock blockTokens state.parentBlockId)

section

variable {cfg : CoordinatorConfig ι κ μ} {c c' c'' : PrefixCacheCoordinator ι κ μ} {seqId : Nat}
  {id : ι}

theorem TurnFrame.trans (h : TurnFrame seqId c c') (h' : TurnFrame seqId c' c'') :
    TurnFrame seqId c c'' :=
  ⟨h'.holding, h.stays.trans h'.stays, h.elsewhere.trans h'.elsewhere,
    fun x hx => h'.mono x (h.mono x hx), h.limited.trans h'.limited⟩

theorem TurnFrame.of_kept (h : Holding c) (hk : Kept c c') : TurnFrame seqId c c' :=
  ⟨h.kept hk, hk.stays, .of_tables hk.tables seqId, fun _ hx => hx.tables hk.tables,
    (congrArg SequenceTables.capacityLimitedSeqIds hk.tables).ge⟩

theorem Took.frame (h : Took seqId id c c') : TurnFrame seqId c c' :=
  { h with limited := h.limited.ge }

theorem TurnFrame.of_same (h : Holding c) (hindex : c'.prefixCache = c.prefixCache)
    (hmat : c'.seqIdToMaterializedBlocks = c.seqIdToMaterializedBlocks)
    (helse : Elsewhere seqId c c') (hlim : c.capacityLimitedSeqIds ⊆ c'.capacityLimitedSeqIds) :
    TurnFrame seqId c c' := by
  refine ⟨h.of_same hindex helse.prefixBlocks hmat, .of_same hindex, helse, fun x hx => ?_, hlim⟩
  unfold Holds heldBlocks
  rw [helse.prefixBlocks, hmat]
  exact hx

theorem steady_wp {α : Type} {m : CoordM ι κ μ α} (hm : Along Steady m) (h : Holding c) :
    wp m (fun _ c' => Kept c c') (fun _ _ => True) c :=
  wp_mono (keeps_iff.mpr (h.steady hm)) (fun _ _ hk => hk) fun _ _ _ => trivial

omit [LinearOrder ι] in
theorem elsewhere_setRuntimeState (f : MixedPrefixRuntimeState ι → MixedPrefixRuntimeState ι)
    (c : PrefixCacheCoordinator ι κ μ) :
    Elsewhere seqId c
      { c with runtimeStates := c.runtimeStates.set seqId (f (runtimeState c seqId)) } where
  prefixBlocks := rfl
  materialized := fun _ _ => rfl
  runtime := fun k hk => by
    show (c.runtimeStates.set seqId _).get? k = _
    rw [Dict.get?_set_ne _ _ hk]
  pending := fun _ _ => rfl
  duplicates := fun _ _ => rfl
  limited := fun _ _ => .rfl

theorem frame_setRuntimeState (seqId : Nat) (h : Holding c)
    (f : MixedPrefixRuntimeState ι → MixedPrefixRuntimeState ι) : TurnFrame seqId c
      { c with runtimeStates := c.runtimeStates.set seqId (f (runtimeState c seqId)) } :=
  .of_same h rfl rfl (elsewhere_setRuntimeState f c) subset_rfl

theorem reservePendingBlock_kept (h : Holding c) (id : ι) (n : Nat) :
    wp (reservePendingBlock cfg id n)
      (fun reserved c' => ∃ c₁, Kept c c₁ ∧ c' = if reserved then reserve id n c₁ else c₁)
      (fun _ _ => True) c := by
  simp only [reservePendingBlock, wp_bind, wp_get, wp_ite]
  split
  · exact ⟨c, ⟨.refl h.wf, rfl⟩, rfl⟩
  · refine wp_mono (steady_wp (evictForInsert_steady 1 n) h) (fun room c₁ h₁ => ?_)
      fun _ _ ht => ht
    split
    · exact ⟨c₁, h₁, rfl⟩
    · exact ⟨c₁, h₁, rfl⟩

def appendPending (seqId : Nat) (p : PendingMixedPrefixBlock ι κ)
    (c : PrefixCacheCoordinator ι κ μ) : PrefixCacheCoordinator ι κ μ :=
  { c with pendingBlocks := c.pendingBlocks.set seqId (pendings c seqId ++ [p]) }

theorem buildPendingBlock_kept (h : Holding c) (seqId : Nat) (id : ι)
    (state : MixedPrefixRuntimeState ι) (blockTokens : List Int) :
    wp (buildPendingBlock cfg seqId id state blockTokens)
      (fun _ c' => ∃ c₁ p, Kept c c₁ ∧ p.stableBlockId = id ∧
        p.parentBlockId = state.parentBlockId ∧ c' = appendPending seqId p c₁)
      (fun _ _ => True) c := by
  have hsnapshot : Along (@Steady ι κ μ _) (buildPrefixRecurrentPayload cfg seqId
      (state.nextLogicalBlockIdx * cfg.blockSize + cfg.blockSize)) :=
    along_bind (tolerates_steady.managers _) fun _ => along_bind along_get fun _ =>
      along_bind (steady_modify (fun _ => rfl) fun _ => rfl) fun _ => along_pure _
  simp only [buildPendingBlock, buildSnapshot, wp_bind]
  refine wp_mono (steady_wp (tolerates_steady.managers _) h) (fun kvPayload c₁ h₁ => ?_)
    fun _ _ ht => ht
  refine wp_mono (steady_wp hsnapshot (h.kept h₁)) (fun payload c₂ h₂ => ?_) fun _ _ ht => ht
  have hk₂ := h₁.trans h₂
  rw [wp_tryExcept]
  simp only [wp_bind, wp_raiseIf, wp_raise, wp_modify]
  have htrue : ∀ c' : PrefixCacheCoordinator ι κ μ,
      wp (freePrefixRecurrentPayload (ι := ι) (κ := κ) (μ := μ) payload) (fun _ _ => True)
        (fun _ _ => True) c' := fun _ => trivial
  refine ⟨fun _ => htrue c₂, fun _ => ?_⟩
  refine wp_mono (steady_wp (tolerates_steady.managers _) (h.kept hk₂)) (fun kvBytes c₃ h₃ => ?_)
    fun _ c₃ _ => htrue c₃
  exact ⟨c₃, _, hk₂.trans h₃, rfl, rfl, rfl⟩

omit [LinearOrder ι] in
theorem runtimeState_of_set {d : Dict Nat (MixedPrefixRuntimeState ι)}
    {state : MixedPrefixRuntimeState ι} (h : c'.runtimeStates = d.set seqId state) :
    runtimeState c' seqId = state := by
  unfold runtimeState
  rw [h, Dict.get?_set, if_pos rfl, Option.getD_some]

variable {blockTokens : List Int}

theorem addBlock_existing (h : Holding c) {b : MixedBlock ι κ}
    (hb : c.prefixCache.blocks.get?
      (cfg.index.hashBlock blockTokens (runtimeState c seqId).parentBlockId) = some b) :
    wp (holdMaterializedRef seqId b >>= fun _ =>
        advance seqId (cfg.index.hashBlock blockTokens (runtimeState c seqId).parentBlockId))
      (fun _ c' => Added cfg seqId blockTokens (runtimeState c seqId) c c') (fun _ _ => True) c := by
  have hid := h.wf.ids _ b hb
  rw [← hid] at hb
  rw [wp_bind]
  refine wp_mono (holdMaterializedRef_spec h hb) (fun _ c₁ ht => ?_) fun _ _ _ => trivial
  rw [hid] at ht
  have hframe := frame_setRuntimeState seqId ht.holding
    (advanced · (cfg.index.hashBlock blockTokens (runtimeState c seqId).parentBlockId))
  have hstate : runtimeState c₁ seqId = runtimeState c seqId := by
    unfold runtimeState
    rw [ht.runtime]
  refine ⟨ht.frame.trans hframe, .existing (hframe.mono _ ht.holds) ?_ ?_, fun _ => ?_⟩
  · exact congrArg (fun d => (d.get? seqId).getD []) ht.pending
  · exact congrArg (fun d => (d.get? seqId).getD []) ht.duplicates
  · refine runtimeState_of_set (d := c₁.runtimeStates) ?_
    rw [← hstate]
    rfl

theorem addBlock_duplicate (h : Holding c)
    (hid : cfg.index.hashBlock blockTokens (runtimeState c seqId).parentBlockId ∈ c.pendingBlockIds) :
    wp ((PyM.modify fun c' => { c' with
        pendingDuplicateRefs := c'.pendingDuplicateRefs.set seqId
          (if cfg.index.hashBlock blockTokens (runtimeState c seqId).parentBlockId ∈
              duplicates c seqId then duplicates c seqId
           else duplicates c seqId ++
              [cfg.index.hashBlock blockTokens (runtimeState c seqId).parentBlockId]) }) >>= fun _ =>
        advance seqId (cfg.index.hashBlock blockTokens (runtimeState c seqId).parentBlockId))
      (fun _ c' => Added cfg seqId blockTokens (runtimeState c seqId) c c') (fun _ _ => True) c := by
  refine ⟨.of_same h rfl rfl ⟨rfl, fun _ _ => rfl, fun k hk => ?_, fun _ _ => rfl, fun k hk => ?_,
    fun _ _ => .rfl⟩ subset_rfl, .duplicate hid rfl ?_, fun _ => runtimeState_of_set rfl⟩
  · exact Dict.get?_set_ne _ _ hk
  · exact Dict.get?_set_ne _ _ hk
  · show ((c.pendingDuplicateRefs.set seqId _).get? seqId).getD [] = _
    rw [Dict.get?_set, if_pos rfl, Option.getD_some]

omit [LinearOrder ι] in
theorem elsewhere_appendPending (p : PendingMixedPrefixBlock ι κ)
    (c : PrefixCacheCoordinator ι κ μ) : Elsewhere seqId c (appendPending seqId p c) :=
  ⟨rfl, fun _ _ => rfl, fun _ _ => rfl, fun _ hk => Dict.get?_set_ne _ _ hk, fun _ _ => rfl,
    fun _ _ => .rfl⟩

theorem addNewBlock_turn (h : Holding c)
    (habsent : c.prefixCache.blocks.get?
      (cfg.index.hashBlock blockTokens (runtimeState c seqId).parentBlockId) = none)
    (hfree : cfg.index.hashBlock blockTokens (runtimeState c seqId).parentBlockId ∉
      c.pendingBlockIds) :
    wp (addNewBlock cfg seqId (cfg.index.hashBlock blockTokens (runtimeState c seqId).parentBlockId)
        (runtimeState c seqId) blockTokens)
      (fun _ c' => Added cfg seqId blockTokens (runtimeState c seqId) c c') (fun _ _ => True) c := by
  unfold addNewBlock
  rw [wp_bind]
  refine wp_mono (reservePendingBlock_kept h _ _) (fun reserved c₁ h₁ => ?_) fun _ _ ht => ht
  obtain ⟨c₀, hk, rfl⟩ := h₁
  have hframe : TurnFrame seqId c c₀ := .of_kept h hk
  rw [wp_ite]
  split
  · next hr =>
    subst hr
    rw [wp_bind, wp_tryExcept]
    generalize hid : cfg.index.hashBlock blockTokens (runtimeState c seqId).parentBlockId = id
      at habsent hfree ⊢
    have hres : TurnFrame seqId c₀ (reserve id cfg.recurrentSnapshotNbytes c₀) :=
      .of_same hframe.holding rfl rfl ⟨rfl, fun _ _ => rfl, fun _ _ => rfl, fun _ _ => rfl,
        fun _ _ => rfl, fun _ _ => .rfl⟩ subset_rfl
    refine wp_mono (buildPendingBlock_kept hres.holding seqId id _ blockTokens)
      (fun _ c₂ h₂ => ?_) fun _ _ _ => ?_
    · obtain ⟨c₃, p, hk₃, hp, hparent, rfl⟩ := h₂
      have hframe₃ := (hframe.trans hres).trans (.of_kept hres.holding hk₃)
      have happend : TurnFrame seqId c₃ (appendPending seqId p c₃) :=
        .of_same hframe₃.holding rfl rfl (elsewhere_appendPending p c₃) subset_rfl
      have hstate : runtimeState c₃ seqId = runtimeState c seqId :=
        (congrArg (fun t => (t.runtimeStates.get? seqId).getD {}) hk₃.tables).trans
          (congrArg (fun t => (t.runtimeStates.get? seqId).getD {}) hk.tables)
      have hpend : pendings c₃ seqId = pendings c seqId :=
        (congrArg (fun t => (t.pendingBlocks.get? seqId).getD []) hk₃.tables).trans
          (congrArg (fun t => (t.pendingBlocks.get? seqId).getD []) hk.tables)
      have hdup : duplicates c₃ seqId = duplicates c seqId :=
        (congrArg (fun t => (t.pendingDuplicateRefs.get? seqId).getD []) hk₃.tables).trans
          (congrArg (fun t => (t.pendingDuplicateRefs.get? seqId).getD []) hk.tables)
      refine ⟨(hframe₃.trans happend).trans (frame_setRuntimeState seqId happend.holding (advanced · id)),
        ?_, fun _ => ?_⟩
      · rw [hid]
        refine .owner p hp hparent habsent hfree ?_ hdup
        show ((c₃.pendingBlocks.set seqId (pendings c₃ seqId ++ [p])).get? seqId).getD [] = _
        rw [Dict.get?_set, if_pos rfl, Option.getD_some, hpend]
      · rw [hid, ← hstate]
        exact runtimeState_of_set rfl
    · rw [wp_bind]
      exact (keeps_iff (I := fun _ => True)).mpr trivial
  · have hlimited : seqId ∈ insert seqId c₀.capacityLimitedSeqIds := Finset.mem_insert_self _ _
    refine ⟨hframe.trans (.of_same hframe.holding rfl rfl ⟨rfl, fun _ _ => rfl, fun _ _ => rfl,
      fun _ _ => rfl, fun _ _ => rfl, fun k hk => ?_⟩
      (Finset.subset_insert _ _)), .limited hlimited ?_ ?_,
      fun hno => absurd hlimited hno⟩
    · show k ∈ insert seqId c₀.capacityLimitedSeqIds ↔ _
      rw [Finset.mem_insert]
      exact or_iff_right hk
    · exact congrArg (fun t => (t.pendingBlocks.get? seqId).getD []) hk.tables
    · exact congrArg (fun t => (t.pendingDuplicateRefs.get? seqId).getD []) hk.tables

theorem addBlock_turn (h : Holding c) (blockTokens : List Int) :
    wp (addBlock cfg seqId blockTokens)
      (fun _ c' => Added cfg seqId blockTokens (runtimeState c seqId) c c')
      (fun _ _ => True) c := by
  unfold addBlock
  rw [wp_bind, wp_get]
  dsimp only
  cases hget : c.prefixCache.blocks.get?
      (cfg.index.hashBlock blockTokens (runtimeState c seqId).parentBlockId) with
  | some b => exact addBlock_existing h hget
  | none =>
    rw [wp_ite]
    split
    · next hdup => exact addBlock_duplicate h hdup
    · next hfree => exact addNewBlock_turn h hget hfree

end

def turnState (cfg : CoordinatorConfig ι κ μ) (isPrefill : Bool) (seq : MixedSequence ι)
    (c : PrefixCacheCoordinator ι κ μ) : MixedPrefixRuntimeState ι :=
  let state := stateOf c seq
  match completedBlock cfg isPrefill seq c with
  | some id => { advanced state id with pendingTokens := [] }
  | none =>
    if records c seq then
      { state with pendingTokens := state.pendingTokens ++ stepTokens isPrefill seq }
    else state

structure Turn (cfg : CoordinatorConfig ι κ μ) (isPrefill : Bool) (seq : MixedSequence ι)
    (c c' : PrefixCacheCoordinator ι κ μ) : Prop where
  frame : TurnFrame seq.seqId c c'
  idle : completedBlock cfg isPrefill seq c = none →
    pendings c' seq.seqId = pendings c seq.seqId ∧ duplicates c' seq.seqId = duplicates c seq.seqId
  outcome : ∀ id, completedBlock cfg isPrefill seq c = some id →
    AddOutcome seq.seqId (stateOf c seq).parentBlockId id c c'
  state : seq.seqId ∉ c'.capacityLimitedSeqIds → stateOf c' seq = turnState cfg isPrefill seq c

def Fits (cfg : CoordinatorConfig ι κ μ) (isPrefill : Bool) (seq : MixedSequence ι)
    (c : PrefixCacheCoordinator ι κ μ) : Prop :=
  records c seq = true → (stateOf c seq).pendingTokens.length < cfg.blockSize ∧
    (stateOf c seq).pendingTokens.length + (stepTokens isPrefill seq).length ≤ cfg.blockSize

section

variable {cfg : CoordinatorConfig ι κ μ} {c c' c₁ c₂ : PrefixCacheCoordinator ι κ μ} {seqId : Nat}
  {seq : MixedSequence ι} {isPrefill : Bool}

theorem AddOutcome.congr {parent : Option ι} {id : ι} (h : AddOutcome seqId parent id c₁ c₂)
    (hp : pendings c₁ seqId = pendings c seqId) (hd : c₁.pendingDuplicateRefs = c.pendingDuplicateRefs)
    (hids : c₁.pendingBlockIds = c.pendingBlockIds) (hindex : c₁.prefixCache = c.prefixCache)
    (hp' : c'.pendingBlocks = c₂.pendingBlocks)
    (hd' : c'.pendingDuplicateRefs = c₂.pendingDuplicateRefs)
    (hl' : c'.capacityLimitedSeqIds = c₂.capacityLimitedSeqIds)
    (hh' : Holds c₂ seqId id → Holds c' seqId id) : AddOutcome seqId parent id c c' := by
  have hpend : pendings c' seqId = pendings c₂ seqId := by
    unfold pendings
    rw [hp']
  have hdup : duplicates c' seqId = duplicates c₂ seqId := by
    unfold duplicates
    rw [hd']
  have hdup₁ : duplicates c₁ seqId = duplicates c seqId := by
    unfold duplicates
    rw [hd]
  cases h with
  | limited hl h₁ h₂ =>
    exact .limited (hl' ▸ hl) (hpend.trans (h₁.trans hp)) (hdup.trans (h₂.trans hdup₁))
  | existing hh h₁ h₂ =>
    exact .existing (hh' hh) (hpend.trans (h₁.trans hp)) (hdup.trans (h₂.trans hdup₁))
  | duplicate hid h₁ h₂ =>
    rw [hdup₁] at h₂
    exact .duplicate (hids ▸ hid) (hpend.trans (h₁.trans hp)) (hdup.trans h₂)
  | owner p hid hparent hnew hfree h₁ h₂ =>
    rw [hp] at h₁
    exact .owner p hid hparent (hindex ▸ hnew) (hids ▸ hfree) (hpend.trans h₁)
      (hdup.trans (h₂.trans hdup₁))

omit [LinearOrder ι] in
theorem stateOf_of_set {d : Dict Nat (MixedPrefixRuntimeState ι)}
    {state : MixedPrefixRuntimeState ι} (h : c'.runtimeStates = d.set seq.seqId state) :
    stateOf c' seq = state := by
  unfold stateOf
  rw [h, Dict.get?_set, if_pos rfl, Option.getD_some]

omit [LinearOrder ι] in
theorem runtimeStates_init (seq : MixedSequence ι) (c : PrefixCacheCoordinator ι κ μ) :
    (initRuntimeState seq c).2.runtimeStates = match c.runtimeStates.get? seq.seqId with
      | some _ => c.runtimeStates
      | none => c.runtimeStates.set seq.seqId
          { parentBlockId := seq.prefixCacheHitLastBlockId
            nextLogicalBlockIdx := seq.prefixCacheHitBlockCount } := rfl

theorem initRuntimeState_frame (h : Holding c) (seq : MixedSequence ι) :
    TurnFrame seq.seqId c (initRuntimeState seq c).2 := by
  refine .of_same h rfl rfl ⟨rfl, fun _ _ => rfl, fun k hk => ?_, fun k hk => ?_, fun _ _ => rfl,
    fun _ _ => .rfl⟩ subset_rfl
  · rw [runtimeStates_init]
    split
    · rfl
    · exact Dict.get?_set_ne _ _ hk
  · exact Dict.get?_set_ne _ _ hk

omit [LinearOrder ι] in
theorem runtimeState_init (seq : MixedSequence ι) (c : PrefixCacheCoordinator ι κ μ) :
    runtimeState (initRuntimeState seq c).2 seq.seqId = stateOf c seq := by
  unfold runtimeState stateOf
  rw [runtimeStates_init]
  split
  · next hsome => rw [hsome]; rfl
  · next hnone => rw [hnone, Dict.get?_set, if_pos rfl]; rfl

omit [LinearOrder ι] in
theorem pendings_init (seq : MixedSequence ι) (c : PrefixCacheCoordinator ι κ μ) :
    pendings (initRuntimeState seq c).2 seq.seqId = pendings c seq.seqId := by
  show ((c.pendingBlocks.set seq.seqId _).get? seq.seqId).getD [] = _
  rw [Dict.get?_set, if_pos rfl]
  rfl

variable (cfg seqId) in
theorem addBlock_rest (h : Holding c) (blockTokens rest : List Int) :
    wp (addBlock cfg seqId blockTokens >>= fun _ =>
        setRuntimeState seqId fun state => { state with pendingTokens := rest })
      (fun _ c' => TurnFrame seqId c c' ∧
        AddOutcome seqId (runtimeState c seqId).parentBlockId
          (cfg.index.hashBlock blockTokens (runtimeState c seqId).parentBlockId) c c' ∧
        (seqId ∉ c'.capacityLimitedSeqIds → ∃ d : Dict Nat (MixedPrefixRuntimeState ι),
          c'.runtimeStates = d.set seqId
            { advanced (runtimeState c seqId)
                (cfg.index.hashBlock blockTokens (runtimeState c seqId).parentBlockId) with
              pendingTokens := rest }))
      (fun _ _ => True) c := by
  rw [wp_bind]
  refine wp_mono (addBlock_turn h blockTokens) (fun _ c₁ h₁ => ?_) fun _ _ ht => ht
  have hframe := frame_setRuntimeState seqId h₁.frame.holding
    fun state => { state with pendingTokens := rest }
  refine ⟨h₁.frame.trans hframe,
    h₁.outcome.congr rfl rfl rfl rfl rfl rfl rfl (hframe.mono _), fun hno => ⟨c₁.runtimeStates, ?_⟩⟩
  rw [← h₁.state hno]

/-- What `_record_tokens` does with tokens that complete at most one block. -/
structure Recorded (cfg : CoordinatorConfig ι κ μ) (seq : MixedSequence ι) (tokens : List Int)
    (c c' : PrefixCacheCoordinator ι κ μ) : Prop where
  frame : TurnFrame seq.seqId c c'
  short : tokens.length ≠ cfg.blockSize → pendings c' seq.seqId = pendings c seq.seqId ∧
    duplicates c' seq.seqId = duplicates c seq.seqId ∧
    stateOf c' seq = { stateOf c seq with pendingTokens := tokens }
  full : tokens.length = cfg.blockSize →
    AddOutcome seq.seqId (stateOf c seq).parentBlockId
      (cfg.index.hashBlock tokens (stateOf c seq).parentBlockId) c c' ∧
    (seq.seqId ∉ c'.capacityLimitedSeqIds → stateOf c' seq =
      { advanced (stateOf c seq) (cfg.index.hashBlock tokens (stateOf c seq).parentBlockId) with
        pendingTokens := [] })

theorem recordFullBlocks_turn (hB : 0 < cfg.blockSize) (h : Holding c) {tokens : List Int}
    (hlen : tokens.length ≤ cfg.blockSize)
    (hstate : runtimeState (initRuntimeState seq c).2 seq.seqId = stateOf c seq) :
    wp (recordFullBlocks cfg seq.seqId tokens) (fun _ c' => Recorded cfg seq tokens c c')
      (fun _ _ => True) (initRuntimeState seq c).2 := by
  have hinit := initRuntimeState_frame h seq
  unfold recordFullBlocks
  by_cases hfull : tokens.length = cfg.blockSize
  · have hcount : tokens.length / cfg.blockSize = 1 := by rw [hfull, Nat.div_self hB]
    have htake : (tokens.drop (0 * cfg.blockSize)).take cfg.blockSize = tokens := by
      rw [Nat.zero_mul, List.drop_zero, ← hfull, List.take_length]
    have hdrop : tokens.drop (1 * cfg.blockSize) = [] := by
      rw [Nat.one_mul, ← hfull, List.drop_length]
    simp only [hcount, List.range_one, PyM.forEach, htake, hdrop]
    have hadd := addBlock_rest cfg seq.seqId hinit.holding tokens []
    rw [hstate] at hadd
    rw [wp_bind] at hadd ⊢
    rw [wp_bind]
    refine wp_mono hadd (fun _ c₁ h₁ => ?_) fun _ _ ht => ht
    obtain ⟨hframe, hout, hnext⟩ := h₁
    refine ⟨hinit.trans hframe, fun hne => absurd hfull hne, fun _ => ⟨?_, fun hno => ?_⟩⟩
    · exact hout.congr (pendings_init seq c) rfl rfl rfl rfl rfl rfl fun hh => hh
    · obtain ⟨d, hd⟩ := hnext hno
      exact stateOf_of_set hd
  · have hcount : tokens.length / cfg.blockSize = 0 :=
      Nat.div_eq_of_lt (lt_of_le_of_ne hlen hfull)
    simp only [hcount, List.range_zero, PyM.forEach, Nat.zero_mul, List.drop_zero]
    have hframe := frame_setRuntimeState seq.seqId hinit.holding
      fun state => { state with pendingTokens := tokens }
    refine ⟨hinit.trans hframe, fun _ => ⟨pendings_init seq c, rfl, ?_⟩, fun he => absurd he hfull⟩
    rw [← hstate]
    exact stateOf_of_set rfl

theorem recordTokens_turn (hB : 0 < cfg.blockSize) (h : Holding c) {tokens : List Int}
    (hm : seq.multimodal = false) (hne : tokens ≠ [])
    (hfit : (stateOf c seq).pendingTokens.length + tokens.length ≤ cfg.blockSize) :
    wp (recordTokens cfg seq tokens)
      (fun _ c' => Recorded cfg seq ((stateOf c seq).pendingTokens ++ tokens) c c')
      (fun _ _ => True) c := by
  have hinit := initRuntimeState_frame h seq
  have hstate := runtimeState_init seq c
  have hempty : (seq.multimodal || tokens.isEmpty) = false := by
    rw [hm, Bool.false_or]
    exact List.isEmpty_eq_false_iff.mpr hne
  have hrun : initRuntimeState (κ := κ) (μ := μ) seq c = (.ok (), (initRuntimeState seq c).2) := rfl
  unfold recordTokens
  rw [if_neg (Bool.not_eq_true _ ▸ hempty), wp_bind, wp_of_ok hrun, wp_bind, wp_get]
  dsimp only
  rw [hstate, wp_ite]
  split
  · next hp =>
    rw [List.isEmpty_iff] at hp
    rw [hp, List.nil_append]
    rw [hp, List.length_nil, Nat.zero_add] at hfit
    exact recordFullBlocks_turn hB h hfit hstate
  · have htake : min (cfg.blockSize - (stateOf c seq).pendingTokens.length) tokens.length =
        tokens.length := by omega
    rw [htake, List.take_length, List.drop_length]
    set all := (stateOf c seq).pendingTokens ++ tokens with hall
    have hframe := frame_setRuntimeState seq.seqId hinit.holding
      fun state => { state with pendingTokens := all }
    rw [wp_bind]
    show wp _ _ _ { (initRuntimeState seq c).2 with
      runtimeStates := (initRuntimeState seq c).2.runtimeStates.set seq.seqId
        { runtimeState (initRuntimeState seq c).2 seq.seqId with pendingTokens := all } }
    rw [hstate] at hframe ⊢
    set c₁ : PrefixCacheCoordinator ι κ μ := { (initRuntimeState seq c).2 with
      runtimeStates := (initRuntimeState seq c).2.runtimeStates.set seq.seqId
        { stateOf c seq with pendingTokens := all } } with hc₁
    have hstate₁ : runtimeState c₁ seq.seqId = { stateOf c seq with pendingTokens := all } :=
      runtimeState_of_set rfl
    rw [wp_ite]
    split
    · next hfull =>
      have hadd := addBlock_rest cfg seq.seqId hframe.holding all []
      rw [hstate₁] at hadd
      rw [wp_bind] at hadd ⊢
      refine wp_mono hadd (fun _ _ h₂ => ?_) fun _ _ ht => ht
      rw [wp_bind]
      refine wp_mono h₂ (fun _ c₂ h₂ => ?_) fun _ _ ht => ht
      obtain ⟨hframe₂, hout, hnext⟩ := h₂
      have hzero : ([] : List Int).length / cfg.blockSize = 0 := Nat.zero_div _
      simp only [recordFullBlocks, hzero, List.range_zero, PyM.forEach, List.drop_nil]
      have hlast := frame_setRuntimeState seq.seqId hframe₂.holding
        fun state => { state with pendingTokens := [] }
      refine ⟨((hinit.trans hframe).trans hframe₂).trans hlast, fun hno => absurd hfull hno,
        fun _ => ⟨hout.congr (pendings_init seq c) rfl rfl rfl rfl rfl rfl (hlast.mono _),
          fun hno => ?_⟩⟩
      obtain ⟨d, hd⟩ := hnext hno
      have hstate₂ := runtimeState_of_set hd
      refine Eq.trans (b := { runtimeState c₂ seq.seqId with pendingTokens := [] })
        (stateOf_of_set (d := c₂.runtimeStates) rfl) ?_
      rw [hstate₂]
      rfl
    · next hshort =>
      refine ⟨hinit.trans hframe, fun _ => ⟨pendings_init seq c, rfl, stateOf_of_set rfl⟩,
        fun he => absurd he hshort⟩

omit [LinearOrder ι] in
theorem records_iff : records c seq = true ↔
    seq.multimodal = false ∧ seq.seqId ∉ c.capacityLimitedSeqIds := by
  simp [records]

theorem Turn.of_idle (h : Holding c) (hcompleted : completedBlock cfg isPrefill seq c = none)
    (hstate : turnState cfg isPrefill seq c = stateOf c seq) : Turn cfg isPrefill seq c c where
  frame := .of_same h rfl rfl (.of_tables rfl _) subset_rfl
  idle := fun _ => ⟨rfl, rfl⟩
  outcome := fun id hid => by
    rw [hcompleted] at hid
    cases hid
  state := fun _ => hstate.symm

theorem Turn.of_not_records (h : Holding c) (hr : records c seq = false) :
    Turn cfg isPrefill seq c c := by
  have hcompleted : completedBlock cfg isPrefill seq c = none := by simp [completedBlock, hr]
  exact .of_idle h hcompleted (by simp [turnState, hcompleted, hr])

theorem Turn.of_no_tokens (h : Holding c) (hfit : Fits cfg isPrefill seq c)
    (htokens : stepTokens isPrefill seq = []) : Turn cfg isPrefill seq c c := by
  cases hr : records c seq with
  | false => exact .of_not_records h hr
  | true =>
    have hlt := (hfit hr).1
    have hcompleted : completedBlock cfg isPrefill seq c = none := by
      simp [completedBlock, htokens, hlt.ne]
    exact .of_idle h hcompleted (by simp [turnState, hcompleted, htokens])

theorem Recorded.turn (h : Recorded cfg seq ((stateOf c seq).pendingTokens ++
      stepTokens isPrefill seq) c c') (hr : records c seq = true) : Turn cfg isPrefill seq c c' := by
  by_cases hfull : ((stateOf c seq).pendingTokens ++ stepTokens isPrefill seq).length =
      cfg.blockSize
  · have hcompleted : completedBlock cfg isPrefill seq c = some (cfg.index.hashBlock
        ((stateOf c seq).pendingTokens ++ stepTokens isPrefill seq)
        (stateOf c seq).parentBlockId) := by
      simp only [completedBlock, hr, hfull, Bool.true_and, decide_true, if_true]
    obtain ⟨hout, hstate⟩ := h.full hfull
    refine ⟨h.frame, fun hnone => ?_, fun id hid => ?_, fun hno => ?_⟩
    · rw [hcompleted] at hnone
      cases hnone
    · rw [hcompleted] at hid
      cases hid
      exact hout
    · simp only [turnState, hcompleted]
      exact hstate hno
  · have hcompleted : completedBlock cfg isPrefill seq c = none := by
      simp only [completedBlock, hr, hfull, Bool.true_and, decide_false, if_false,
        Bool.false_eq_true]
    obtain ⟨hp, hd, hstate⟩ := h.short hfull
    refine ⟨h.frame, fun _ => ⟨hp, hd⟩, fun id hid => ?_, fun _ => ?_⟩
    · rw [hcompleted] at hid
      cases hid
    · simp only [turnState, hcompleted, hr, if_true]
      exact hstate

theorem recordTokens_step (hB : 0 < cfg.blockSize) (h : Holding c)
    (hlim : seq.seqId ∉ c.capacityLimitedSeqIds) (hfit : Fits cfg isPrefill seq c) :
    wp (recordTokens cfg seq (stepTokens isPrefill seq)) (fun _ c' => Turn cfg isPrefill seq c c')
      (fun _ _ => True) c := by
  by_cases hskip : (seq.multimodal || (stepTokens isPrefill seq).isEmpty) = true
  · unfold recordTokens
    rw [if_pos hskip]
    rcases Bool.or_eq_true_iff.mp hskip with hm | hempty
    · exact .of_not_records h (by simp [records, hm])
    · exact .of_no_tokens h hfit (List.isEmpty_iff.mp hempty)
  · rw [Bool.or_eq_true_iff, not_or, Bool.not_eq_true, List.isEmpty_iff] at hskip
    have hr : records c seq = true := records_iff.mpr ⟨hskip.1, hlim⟩
    exact wp_mono (recordTokens_turn hB h hskip.1 hskip.2 (hfit hr).2)
      (fun _ _ hrec => hrec.turn hr) fun _ _ ht => ht

def Bounded (cfg : CoordinatorConfig ι κ μ) (seq : MixedSequence ι) : Prop :=
  seq.currentChunkSize ≤ cfg.blockSize - seq.numPrefilledTokens % cfg.blockSize

/-- `record_step_tokens` for one sequence, without its check of the boundary. -/
def recordUnchecked (cfg : CoordinatorConfig ι κ μ) (isPrefill : Bool) (seq : MixedSequence ι) :
    CoordM ι κ μ Unit := do
  if seq.seqId ∈ (← PyM.get).capacityLimitedSeqIds then
    pure ()
  else
    recordTokens cfg seq (stepTokens isPrefill seq)

theorem recordSeqTokens_unchecked (hbound : isPrefill = true → Bounded cfg seq) :
    recordSeqTokens cfg isPrefill seq = recordUnchecked cfg isPrefill seq := by
  funext c
  unfold recordSeqTokens recordUnchecked stepTokens
  simp only [PyM.bind_run, PyM.get_run]
  split
  · rfl
  · cases isPrefill with
    | false => rfl
    | true =>
      have hle := hbound rfl
      unfold Bounded at hle
      simp only [if_true]
      split
      · unfold recordTokens
        rw [if_pos (by simp)]
      · rw [PyM.bind_run, PyM.raiseIf, if_neg (by omega)]

theorem recordSeqTokens_turn (hB : 0 < cfg.blockSize) (h : Holding c)
    (hbound : isPrefill = true → Bounded cfg seq) (hfit : Fits cfg isPrefill seq c) :
    wp (recordSeqTokens cfg isPrefill seq) (fun _ c' => Turn cfg isPrefill seq c c')
      (fun _ _ => True) c := by
  rw [recordSeqTokens_unchecked hbound]
  unfold recordUnchecked
  rw [wp_bind, wp_get, wp_ite]
  split
  · next hlim => exact .of_not_records h (by simp [records, hlim])
  · next hlim => exact recordTokens_step hB h hlim hfit

end

end SparseEngine.PrefixCacheCoordinator
