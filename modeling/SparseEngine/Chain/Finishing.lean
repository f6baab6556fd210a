import SparseEngine.Chain.Resumption
import SparseEngine.Recurrent.Manager
import SparseEngine.Windows.Reservations

/-! `ChainCacheIndex.finish` with the statistics of the index. -/

namespace SparseEngine

open PyM List Dict ChainCacheIndex ChainRuntime

namespace PyM

variable {σ α : Type}

theorem tryFinally_state (m : PyM σ α) (cleanup : PyM σ Unit) (s : σ) :
    (tryFinally m cleanup s).2 = (cleanup (m s).2).2 := by
  unfold tryFinally
  cases m s with
  | mk r s' =>
    dsimp only
    cases cleanup s' with
    | mk c s'' => cases c <;> rfl

end PyM

namespace Dict

variable {K V : Type} [DecidableEq K]

theorem setEntry_of_absent {k : K} {v : V} {l : List (K × V)} (h : lookupEntry k l = none) :
    setEntry k v l = l ++ [(k, v)] := by
  induction l with
  | nil => rfl
  | cons e l ih =>
    obtain ⟨k', v'⟩ := e
    unfold lookupEntry at h
    split_ifs at h with hk
    unfold setEntry
    rw [if_neg hk, ih h]
    rfl

end Dict

namespace ChainCacheIndex

variable {ι φ δ : Type}

/-- The counters of `_stats`. -/
structure ChainStats where
  created : Nat := 0
  resumed : Nat := 0
  finished : Nat := 0
  evicted : Nat := 0
  invalidated : Nat := 0
  prefixMismatch : Nat := 0
  busy : Nat := 0
deriving DecidableEq, Repr

abbrev CountedM (ι φ δ : Type) := PyM (ChainCacheIndex ι φ δ × ChainStats)

variable [LinearOrder ι] {cfg : ChainIndexConfig δ} {s : ChainCacheIndex ι φ δ}

/-- `finish_digest`. -/
def countedFinishDigest (cfg : ChainIndexConfig δ) (chainId : ι) (turn : FinishedTurn δ) :
    CountedM ι φ δ (ChainRecord ι φ δ) := do
  let r ← outer (finishDigest cfg chainId turn)
  PyM.modify fun t => (t.1, { t.2 with finished := t.2.finished + 1 })
  return r

/-- `finish`, for a boundary that may be negative. -/
def countedFinish (cfg : ChainIndexConfig δ) (chainId : ι) (tokenIds : List Int)
    (processedTokenCount : Int) (physicalSlotsByLayer : List Int) (residentRows : Int)
    (capacitySlots : Option (List Int)) : CountedM ι φ δ (ChainRecord ι φ δ) := do
  let existing ← outer (lookup chainId)
  raiseIf (processedTokenCount < 0) (.valueError "processed_token_count must be >= 0")
  let tokens ← outer (prepareTokenHistory cfg existing tokenIds processedTokenCount.toNat)
  let digest ← PyM.lift (stableTokenDigest cfg tokenIds processedTokenCount.toNat)
  let r ← countedFinishDigest cfg chainId
    { processedTokenDigest := digest
      processedTokenCount := processedTokenCount.toNat
      physicalSlotsByLayer := physicalSlotsByLayer
      residentRows := residentRows
      capacitySlots := capacitySlots }
  outer (storeTokenHistory cfg r tokens)

theorem stableTokenDigest_eq {tokenIds : List Int} {count : Nat} {digest : δ}
    (h : stableTokenDigest cfg tokenIds count = .ok digest) :
    digest = cfg.digest (tokenIds.take count) := by
  unfold stableTokenDigest at h
  split_ifs at h
  exact (Except.ok.inj h).symm

structure FinishedWith (cfg : ChainIndexConfig δ) (tokenIds : List Int) (processedTokenCount : Int)
    (q : ChainRecord ι φ δ) : Prop where
  state : q.state = .idle
  processed : (q.processedTokenCount : Int) = processedTokenCount
  tokens : q.tokenIds = tokenIds
  digest : q.processedTokenDigest = some (cfg.digest (q.tokenIds.take q.processedTokenCount))

theorem finishDigest_history (h : Inv cfg s) (id : ι) (turn : FinishedTurn δ) :
    wp (finishDigest cfg id turn)
      (fun q s' => s'.tokenHistoryTokens = s.tokenHistoryTokens ∧
        q.processedTokenDigest = some turn.processedTokenDigest) (fun _ _ => True) s := by
  unfold finishDigest
  rw [wp_bind]
  refine wp_mono (lookup_spec id) ?_ fun _ _ _ => trivial
  rintro r s₁ ⟨rfl, hr⟩
  rw [wp_bind, wp_raiseIf]
  refine ⟨fun _ => trivial, fun _ => ?_⟩
  rw [wp_bind, wp_raiseIf]
  refine ⟨fun _ => trivial, fun _ => ?_⟩
  rw [wp_bind, wp_raiseIf]
  refine ⟨fun _ => trivial, fun _ => ?_⟩
  rw [wp_bind, setRecordState, wp_modify, wp_bind, tick, wp_bind,
    wp_modify, wp_bind, wp_get, wp_pure, wp_bind, wp_modify, wp_pure]
  exact ⟨rfl, rfl⟩

theorem countedFinish_spec (h : Inv cfg s) (stats : ChainStats) (id : ι) (tokenIds : List Int)
    (processedTokenCount : Int) (physicalSlotsByLayer : List Int) (residentRows : Int)
    (capacitySlots : Option (List Int)) :
    wp (countedFinish cfg id tokenIds processedTokenCount physicalSlotsByLayer residentRows
        capacitySlots)
      (fun q t => Inv cfg t.1 ∧ t.1.records.get? id = some q ∧
        FinishedWith cfg tokenIds processedTokenCount q ∧
        t.2 = { stats with finished := stats.finished + 1 })
      (fun _ t => t = (s, stats)) (s, stats) := by
  unfold countedFinish countedFinishDigest prepareTokenHistory
  rw [wp_bind, wp_outer]
  refine wp_mono (lookup_spec id) ?_ ?_
  · rintro r s₁ ⟨rfl, hr⟩
    rw [wp_bind, wp_raiseIf]
    refine ⟨fun _ => rfl, fun hnonneg => ?_⟩
    rw [wp_bind, wp_outer, wp_bind, wp_raiseIf]
    refine ⟨fun _ => rfl, fun _ => ?_⟩
    rw [wp_bind, wp_raiseIf]
    refine ⟨fun _ => rfl, fun _ => ?_⟩
    rw [wp_bind]
    refine wp_mono (checkTokenHistoryCapacity_spec r tokenIds.length) ?_ ?_
    · rintro - s₂ ⟨rfl, hroom⟩
      rw [wp_pure, wp_bind, wp_lift]
      split
      · next digest hdigest =>
        rw [wp_bind, wp_bind, wp_outer]
        refine wp_mono (wp_and (finishDigest_spec h id _) (finishDigest_history h id _)) ?_ ?_
        · rintro q s₃ ⟨⟨hinv, r₀, hrewritten, hfinished⟩, hhistory, hq⟩
          have hr₀ := hrewritten.before
          rw [hr] at hr₀
          cases hr₀
          have hset : s₃.records.get? q.chainId = some q := by
            rw [hrewritten.records, hrewritten.chainId, get?_set_self]
          rw [wp_bind, wp_modify, wp_pure, wp_outer]
          refine wp_mono (storeTokenHistory_spec hinv hset tokenIds) ?_ ?_
          · rintro q' s₄ ⟨hinv', rfl, hstored⟩
            refine ⟨hinv', ?_, ⟨hfinished.state, ?_, rfl, ?_⟩, rfl⟩
            · rw [hstored.records, hrewritten.chainId, get?_set_self]
            · rw [show q.processedTokenCount = processedTokenCount.toNat from
                hfinished.processedTokenCount]
              exact Int.toNat_of_nonneg (not_lt.mp hnonneg)
            · show q.processedTokenDigest = _
              rw [hq, stableTokenDigest_eq hdigest]
              dsimp only
              rw [show q.processedTokenCount = processedTokenCount.toNat from
                hfinished.processedTokenCount]
          · -- The room of the history was checked before, and publishing the turn leaves it.
            rintro e s₄ ⟨-, n, hn, hless⟩
            have hroom' := hroom n hn
            rw [hhistory, hfinished.tokenIds] at hless
            exact absurd hroom' (not_le.mpr hless)
        · rintro e s₃ ⟨rfl, -⟩
          rfl
      · rfl
    · rintro e s₂ ⟨rfl, -⟩
      rfl
  · rintro e s₁ ⟨rfl, -⟩
    rfl

theorem get?_dropOldest_set {n : Nat} {tombstones : Dict ι Nat} {id : ι} (hn : 0 < n) (now : Nat)
    (hnew : tombstones.get? id = none) : (dropOldest n (tombstones.set id now)).get? id = some now := by
  have hentries : (tombstones.set id now).entries = tombstones.entries ++ [(id, now)] :=
    setEntry_of_absent hnew
  have hsize : (tombstones.set id now).size = tombstones.size + 1 := size_set_new now hnew
  refine mem_entries.mp ?_
  show _ ∈ (tombstones.set id now).entries.drop ((tombstones.set id now).size - n)
  rw [hentries, hsize, drop_append_of_le_length
    (show tombstones.size + 1 - n ≤ tombstones.size by omega)]
  exact mem_append_right _ mem_cons_self

theorem invalidate_tombstone (id : ι) :
    wp (invalidate cfg id) (fun _ s' => ∃ now, s'.tombstones.get? id = some now) (fun _ _ => True)
      s := by
  unfold invalidate
  rw [wp_bind]
  refine wp_mono (lookup_spec id) ?_ fun _ _ _ => trivial
  rintro r s₁ ⟨rfl, -⟩
  unfold removeRecord addTombstone
  rw [wp_bind, wp_bind, wp_modify, wp_bind, wp_modify, tick, wp_bind, wp_bind,
    wp_modify, wp_bind, wp_get, wp_pure, wp_modify, wp_pure]
  exact ⟨_, get?_dropOldest_set cfg.maxTombstones_pos _ (get?_erase_self _ _)⟩

end ChainCacheIndex

structure WorkerParts (μ V E : Type) where
  cacheManager : μ
  decodeReservations : DecodeReservations
  recurrentStateManager : Option (Recurrent.StateManager V E)
  residentSeqIds : Dict Int Unit

namespace WorkerParts

variable {ι φ δ μ κ V E α : Type}

def onCacheManager (m : PyM μ α) : PyM (WorkerParts μ V E) α :=
  zoom (·.cacheManager) (fun cache parts => { parts with cacheManager := cache }) m

/-- `if self.recurrent_state_manager is not None`. -/
def onRecurrent (m : Recurrent.StateM V E Unit) : PyM (WorkerParts μ V E) Unit := fun parts =>
  match parts.recurrentStateManager with
  | none => (.ok (), parts)
  | some recurrent =>
    ((m recurrent).1, { parts with recurrentStateManager := some (m recurrent).2 })

def freeSeqPayload (freeSeq : Nat → PyM μ Unit) (seqId : Nat) : PyM (WorkerParts μ V E) Unit := do
  PyM.modify fun parts =>
    { parts with decodeReservations := parts.decodeReservations.release seqId }
  tryFinally (onCacheManager (freeSeq seqId))
    (tryFinally (onRecurrent (Recurrent.freeSeq seqId))
      (PyM.modify fun parts => { parts with residentSeqIds := parts.residentSeqIds.erase seqId }))

def hooks (base : ChainManager μ κ) (freeSeq : Nat → PyM μ Unit)
    (reserved : WorkerParts μ V E → List Int) : ChainManager (WorkerParts μ V E) κ where
  numKvLayers := base.numKvLayers
  tokenBytes := base.tokenBytes
  methodBytes := base.methodBytes
  streamCapturing parts := base.streamCapturing parts.cacheManager
  hasResidency parts := base.hasResidency parts.cacheManager
  physicalResidency parts := base.physicalResidency parts.cacheManager
  capacityResidency := base.capacityResidency.map fun hook parts => hook parts.cacheManager
  capacityDeficits parts := base.capacityDeficits parts.cacheManager
  decodeReserved := reserved
  releaseDecode seqId parts :=
    { parts with decodeReservations := parts.decodeReservations.release seqId }
  onChainTurnFinished seqId count := onCacheManager (base.onChainTurnFinished seqId count)
  snapshotMethodState seqId := onCacheManager (base.snapshotMethodState seqId)
  submitCopy seqId state := onCacheManager (base.submitCopy seqId state)
  allocateChainRestore seqId lengths := onCacheManager (base.allocateChainRestore seqId lengths)
  restoreCopy seqId state := onCacheManager (base.restoreCopy seqId state)
  freeSeq seqId parts := (onCacheManager (freeSeq seqId) parts).2
  freeSeqPayload seqId parts := (freeSeqPayload freeSeq seqId parts).2

/-- A `free_seq` drops the residency of its sequence also where it raises, and gives none. -/
def FreesResidency (base : ChainManager μ κ) (freeSeq : Nat → PyM μ Unit) : Prop :=
  ∀ i m j, base.hasResidency (freeSeq i m).2 j = true → j ≠ i ∧ base.hasResidency m j = true

variable [LinearOrder ι]

/-- `chain_finish`. -/
def chainFinish (base : ChainManager μ κ) (freeSeq : Nat → PyM μ Unit)
    (reserved : WorkerParts μ V E → List Int) (cfg : ChainRuntimeConfig φ δ) (chainId : ι) (seqId : Nat) (digest : δ)
    (processedTokenCount : Nat) (polled : Nat) :
    RuntimeM ι φ δ (WorkerParts μ V E) κ (ChainRecord ι φ δ) := do
  let r ← onIndex (ChainCacheIndex.lookup chainId)
  raiseIf (r.seqId ≠ seqId) (ChainErrorClass.ownerMismatch.error "Chain owner mismatch")
  raiseIf (r.state ≠ .active) (ChainErrorClass.busy.error "Only an ACTIVE chain turn may finish.")
  tryExcept (do
    let finished ← finishTurn (hooks base freeSeq reserved) cfg chainId seqId digest
      processedTokenCount
    saveFinishedChain (hooks base freeSeq reserved) cfg finished polled
    return finished) fun e => do
      let _ ← ChainRuntime.invalidate cfg chainId
      onManager (freeSeqPayload freeSeq seqId)
      raise e

section

variable {base : ChainManager μ κ} {freeSeq : Nat → PyM μ Unit} {parts : WorkerParts μ V E}
  {seqId : Nat}

omit [LinearOrder ι] in
theorem onCacheManager_state (m : PyM μ α) :
    (onCacheManager m parts).2 = { parts with cacheManager := (m parts.cacheManager).2 } := by
  unfold onCacheManager zoom
  cases m parts.cacheManager
  rfl

theorem onRecurrent_state (m : Recurrent.StateM V E Unit) :
    (onRecurrent m parts).2 =
      { parts with
        recurrentStateManager := parts.recurrentStateManager.map fun recurrent => (m recurrent).2 } := by
  unfold onRecurrent
  split
  · next h =>
    cases parts
    subst h
    rfl
  · next recurrent h =>
    rw [h]
    rfl

theorem freeSeqPayload_state :
    (freeSeqPayload freeSeq seqId parts).2 =
      { cacheManager := (freeSeq seqId parts.cacheManager).2
        decodeReservations := parts.decodeReservations.release seqId
        recurrentStateManager :=
          parts.recurrentStateManager.map fun recurrent => (Recurrent.freeSeq seqId recurrent).2
        residentSeqIds := parts.residentSeqIds.erase seqId } := by
  unfold freeSeqPayload
  show (tryFinally _ _ { parts with decodeReservations := _ }).2 = _
  rw [tryFinally_state, tryFinally_state, onRecurrent_state, onCacheManager_state]
  rfl

/-- Nothing of the sequence is left in any part of the worker. -/
structure Freed (base : ChainManager μ κ) (seqId : Nat) (parts parts' : WorkerParts μ V E) :
    Prop where
  device : base.hasResidency parts'.cacheManager seqId = false
  window : parts'.decodeReservations.requests.get? seqId = none
  resident : parts'.residentSeqIds.get? seqId = none
  recurrent : ∀ m', parts'.recurrentStateManager = some m' →
    m'.seqIdToRow.get? seqId = none ∧ m'.pendingPrefixPayloads.get? seqId = none
  row : ∀ m row, parts.recurrentStateManager = some m → m.seqIdToRow.get? seqId = some row →
    m.rowToSeqId row = some (seqId : Int) →
    ∃ m', parts'.recurrentStateManager = some m' ∧ m'.rowToSeqId row = none ∧ row ∈ m'.freeRows

theorem recurrent_freeSeq (seqId : Int) (m : Recurrent.StateManager V E) :
    (Recurrent.freeSeq seqId m).2.seqIdToRow.get? seqId = none ∧
      (Recurrent.freeSeq seqId m).2.pendingPrefixPayloads.get? seqId = none ∧
      ∀ row, m.seqIdToRow.get? seqId = some row → m.rowToSeqId row = some seqId →
        (Recurrent.freeSeq seqId m).2.rowToSeqId row = none ∧
          row ∈ (Recurrent.freeSeq seqId m).2.freeRows := by
  have hrun : wp (Recurrent.freeSeq seqId : Recurrent.StateM V E Unit)
      (fun _ m' => m'.seqIdToRow.get? seqId = none ∧ m'.pendingPrefixPayloads.get? seqId = none ∧
        ∀ row, m.seqIdToRow.get? seqId = some row → m.rowToSeqId row = some seqId →
          m'.rowToSeqId row = none ∧ row ∈ m'.freeRows)
      (fun _ m' => m'.seqIdToRow.get? seqId = none ∧ m'.pendingPrefixPayloads.get? seqId = none ∧
        ∀ row, m.seqIdToRow.get? seqId = some row → m.rowToSeqId row = some seqId →
          m'.rowToSeqId row = none ∧ row ∈ m'.freeRows) m := by
    unfold Recurrent.freeSeq
    rw [wp_bind, wp_modify, wp_bind, wp_get]
    dsimp only
    split
    · next hnone =>
      refine ⟨hnone, get?_erase_self _ _, fun row hrow => ?_⟩
      rw [hnone] at hrow
      cases hrow
    · next row hrow =>
      rw [wp_bind, wp_modify, wp_bind, wp_raiseIf]
      refine ⟨fun hother => ⟨get?_erase_self _ _, get?_erase_self _ _, fun row' hrow' hown => ?_⟩,
        fun _ => ?_⟩
      · rw [hrow] at hrow'
        cases hrow'
        exact absurd hown hother
      · rw [wp_modify]
        refine ⟨get?_erase_self _ _, get?_erase_self _ _, fun row' hrow' _ => ?_⟩
        rw [hrow] at hrow'
        cases hrow'
        exact ⟨if_pos rfl, mem_append_right _ mem_cons_self⟩
  exact keeps_iff.mp hrun

theorem freeSeqPayload_freed (hfree : FreesResidency base freeSeq) :
    Freed base seqId parts (freeSeqPayload freeSeq seqId parts).2 := by
  rw [freeSeqPayload_state]
  refine ⟨?_, get?_erase_self _ _, get?_erase_self _ _, fun m' hm' => ?_,
    fun m row hm hrow hown => ?_⟩
  · by_contra hres
    rw [Bool.not_eq_false] at hres
    exact (hfree _ _ _ hres).1 rfl
  · obtain ⟨m, -, rfl⟩ := Option.map_eq_some_iff.mp hm'
    obtain ⟨hgone, hpending, -⟩ := recurrent_freeSeq (seqId : Int) m
    exact ⟨hgone, hpending⟩
  · refine ⟨(Recurrent.freeSeq seqId m).2, ?_, (recurrent_freeSeq (seqId : Int) m).2.2 row hrow hown⟩
    show Option.map _ parts.recurrentStateManager = _
    rw [hm]
    rfl

end

section

variable {base : ChainManager μ κ} {freeSeq : Nat → PyM μ Unit}
  {reserved : WorkerParts μ V E → List Int} {cfg : ChainRuntimeConfig φ δ} {c : ι}
  {s s' : ChainRuntime ι φ δ (WorkerParts μ V E) κ} {r : ChainRecord ι φ δ}

omit [LinearOrder ι] in
theorem hooks_lawful (hl : base.Lawful) (hfree : FreesResidency base freeSeq) :
    (hooks base freeSeq reserved).Lawful where
  freeSeq i parts j hj := by
    change base.hasResidency (onCacheManager (freeSeq i) parts).2.cacheManager j = true at hj
    rw [onCacheManager_state] at hj
    exact hfree i _ j hj
  freeSeqPayload i parts j hj := by
    change base.hasResidency (freeSeqPayload freeSeq i parts).2.cacheManager j = true at hj
    rw [freeSeqPayload_state] at hj
    exact hfree i _ j hj
  releaseDecode _ _ _ := rfl
  onChainTurnFinished i n parts j hj := by
    change base.hasResidency (onCacheManager _ parts).2.cacheManager j = _
    rw [onCacheManager_state]
    exact hl.onChainTurnFinished i n _ j hj
  snapshotMethodState i parts j := by
    change base.hasResidency (onCacheManager _ parts).2.cacheManager j = _
    rw [onCacheManager_state]
    exact hl.snapshotMethodState i _ j
  submitCopy i state parts j := by
    change base.hasResidency (onCacheManager _ parts).2.cacheManager j = _
    rw [onCacheManager_state]
    exact hl.submitCopy i state _ j
  allocateChainRestore i lengths parts j hj := by
    change base.hasResidency (onCacheManager _ parts).2.cacheManager j = _
    rw [onCacheManager_state]
    exact hl.allocateChainRestore i lengths _ j hj
  allocateChainRestore_raises i lengths parts e he := by
    change base.hasResidency (onCacheManager _ parts).2.cacheManager i = _
    rw [onCacheManager_state]
    refine hl.allocateChainRestore_raises i lengths _ e ?_
    change (onCacheManager (base.allocateChainRestore i lengths) parts).1 = _ at he
    unfold onCacheManager zoom at he
    revert he
    cases base.allocateChainRestore i lengths parts.cacheManager
    exact id
  restoreCopy i state parts j hj := by
    change base.hasResidency (onCacheManager _ parts).2.cacheManager j = _
    rw [onCacheManager_state]
    exact hl.restoreCopy i state _ j hj

def SameRecurrent (s s' : ChainRuntime ι φ δ (WorkerParts μ V E) κ) : Prop :=
  s'.manager.recurrentStateManager = s.manager.recurrentStateManager

instance : Std.Refl (SameRecurrent (ι := ι) (φ := φ) (δ := δ) (μ := μ) (κ := κ) (V := V) (E := E)) :=
  ⟨fun _ => rfl⟩

instance : IsTrans _ (SameRecurrent (ι := ι) (φ := φ) (δ := δ) (μ := μ) (κ := κ) (V := V) (E := E)) :=
  ⟨fun _ _ _ h h' => Eq.trans h' h⟩

omit [LinearOrder ι] in
theorem along_onIndex (m : PyM (ChainCacheIndex ι φ δ) α) :
    Along (SameRecurrent (μ := μ) (κ := κ) (V := V) (E := E)) (onIndex m) :=
  along_zoom (R := fun _ _ => True) (fun _ => trivial) fun _ _ _ => rfl

omit [LinearOrder ι] in
theorem along_onOffload (m : PyM (ChainOffload κ) α) :
    Along (SameRecurrent (ι := ι) (φ := φ) (δ := δ) (μ := μ) (V := V) (E := E))
      (onOffload m) :=
  along_zoom (R := fun _ _ => True) (fun _ => trivial) fun _ _ _ => rfl

omit [LinearOrder ι] in
theorem along_onCacheManager (m : PyM μ α) :
    Along (SameRecurrent (ι := ι) (φ := φ) (δ := δ) (κ := κ) (V := V) (E := E))
      (onManager (onCacheManager m)) := by
  refine along_zoom (R := fun parts parts' : WorkerParts μ V E =>
    parts'.recurrentStateManager = parts.recurrentStateManager) (fun parts => ?_) fun _ _ h => h
  rw [onCacheManager_state]

omit [LinearOrder ι] in
theorem along_query (f : WorkerParts μ V E → Except PyError α) :
    Along (SameRecurrent (ι := ι) (φ := φ) (δ := δ) (κ := κ)) (query f) :=
  along_bind_get fun s => along_lift (f s.manager) s

theorem along_finishTurn (chainId : ι) (seqId : Nat) (digest : δ) (n : Nat) :
    Along SameRecurrent
      (finishTurn (φ := φ) (hooks base freeSeq reserved) cfg chainId seqId digest n) := by
  unfold finishTurn finishValues
  refine along_bind (along_onCacheManager _) fun _ => ?_
  refine along_bind (along_zoom (R := fun parts parts' : WorkerParts μ V E =>
    parts'.recurrentStateManager = parts.recurrentStateManager) (fun _ => rfl) fun _ _ h => h) fun _ => ?_
  refine along_bind (along_onIndex _) fun _ => along_bind (along_raiseIf _ _) fun _ => ?_
  exact along_bind (along_query _) fun _ => along_bind (along_query _) fun _ => along_onIndex _

theorem along_makeRoom (capacity oldBytes required : Nat) :
    ∀ candidates : List (ChainRecord ι φ δ),
      Along (SameRecurrent (μ := μ) (κ := κ) (V := V) (E := E))
        (makeRoom cfg capacity oldBytes required candidates)
  | [] => along_pure ()
  | victim :: candidates => by
    unfold makeRoom
    refine along_bind along_get fun s => along_ite ?_ (along_pure ())
    refine along_bind (along_onOffload _) fun _ => along_ite ?_
      (along_makeRoom capacity oldBytes required candidates)
    exact along_bind (along_onIndex _) fun _ => along_makeRoom capacity oldBytes required candidates

theorem along_saveFinishedChain (r : ChainRecord ι φ δ) (polled : Nat) :
    Along SameRecurrent
      (saveFinishedChain (hooks base freeSeq reserved) cfg r polled) := by
  unfold saveFinishedChain
  split
  · exact along_pure ()
  · next capacity _ =>
    refine along_bind (along_onCacheManager _) fun _ => along_bind (along_query _) fun _ => ?_
    refine along_bind (along_raiseIf _ _) fun _ => along_bind along_get fun s => ?_
    refine along_bind (along_makeRoom capacity _ _ _) fun _ => ?_
    unfold save
    refine along_bind along_get fun s => along_bind (along_raiseIf _ _) fun _ => ?_
    refine along_bind (along_onOffload _) fun _ => along_bind (along_query _) fun _ => ?_
    refine along_bind along_get fun s => along_bind (along_raiseIf _ _) fun _ => ?_
    refine along_bind (along_query _) fun _ => along_bind (along_onOffload _) fun _ => ?_
    exact along_bind (along_onCacheManager _) fun _ => along_onOffload _

/-- The chain is a tombstone, and nothing of its sequence is left. -/
structure Abandoned (base : ChainManager μ κ) (c : ι) (seqId : Nat)
    (s s' : ChainRuntime ι φ δ (WorkerParts μ V E) κ) : Prop where
  record : s'.index.records.get? c = none
  tombstone : ∃ now, s'.index.tombstones.get? c = some now
  snapshot : s'.offload.snapshots.get? seqId = none
  parts : Freed base seqId s.manager s'.manager

theorem runtime_invalidate_tombstone (c : ι) :
    wp (ChainRuntime.invalidate cfg c) (fun _ s' => ∃ now, s'.index.tombstones.get? c = some now)
      (fun _ _ => True) s := by
  unfold ChainRuntime.invalidate
  rw [wp_bind]
  refine wp_mono (keeps_iff (I := fun _ => True) |>.mpr trivial) (fun _ s₁ _ => ?_) fun _ _ _ => trivial
  rw [wp_onIndex]
  exact invalidate_tombstone c

theorem handler_spec (hfree : FreesResidency base freeSeq)
    {s₁ : ChainRuntime ι φ δ (WorkerParts μ V E) κ}
    (h : Accounts (hooks base freeSeq reserved) cfg [c] s₁)
    {rc : ChainRecord ι φ δ} (hrc : s₁.index.records.get? c = some rc)
    (hsame : SameRecurrent s s₁) (e : PyError) :
    wp (do
        let _ ← ChainRuntime.invalidate cfg c
        onManager (freeSeqPayload freeSeq rc.seqId)
        raise e : RuntimeM ι φ δ (WorkerParts μ V E) κ (ChainRecord ι φ δ))
      (fun _ _ => False) (fun _ s' => Abandoned base c rc.seqId s s') s₁ := by
  rw [wp_bind]
  refine wp_mono (wp_and (ChainRuntime.invalidate_spec h fun id hid => mem_singleton.mp hid)
    (runtime_invalidate_tombstone c)) ?_ ?_
  · rintro r s₂ ⟨⟨h₂, hremoved, hmanager⟩, htombstone⟩
    have hend : ∀ parts : WorkerParts μ V E, Freed base rc.seqId s₂.manager parts →
        Abandoned base c rc.seqId s { s₂ with manager := parts } := by
      intro parts hfreed
      refine ⟨?_, htombstone, ?_, hfreed.device, hfreed.window, hfreed.resident, hfreed.recurrent,
        fun m row hm => hfreed.row m row ?_⟩
      · show s₂.index.records.get? c = none
        rw [hremoved.records, get?_erase_self]
      · -- A snapshot has an owner, and the only owner of the sequence is gone.
        show s₂.offload.snapshots.get? rc.seqId = none
        rw [← ChainOffload.status_eq_none]
        by_contra hstatus
        obtain ⟨id, q, hq, hseq⟩ := h₂.owned _ hstatus
        rw [hremoved.records, get?_erase] at hq
        split at hq
        · cases hq
        · next hne => exact h.seqId_ne hrc hq hne hseq
      · rw [hmanager, hsame, hm]
    rw [wp_bind, wp_onManager]
    have hfreed : Freed base rc.seqId s₂.manager (freeSeqPayload freeSeq rc.seqId s₂.manager).2 :=
      freeSeqPayload_freed hfree
    refine wp_mono (keeps_iff (I := Freed base rc.seqId s₂.manager) |>.mpr hfreed)
      (fun _ parts hparts => ?_) fun _ parts hparts => hend parts hparts
    rw [wp_raise]
    exact hend parts hparts
  · rintro e' s₂ ⟨⟨-, hnone⟩, -⟩
    rw [hrc] at hnone
    cases hnone

theorem chainFinish_outcome (hl : base.Lawful) (hfree : FreesResidency base freeSeq)
    (h : Accounts (hooks base freeSeq reserved) cfg [] s)
    (hr : s.index.records.get? c = some r) (hactive : r.state = .active) (digest : δ)
    (n polled : Nat) :
    wp (chainFinish base freeSeq reserved cfg c r.seqId digest n polled)
      (fun q s' => s'.index.records.get? c = some q ∧ q.state = .idle ∧ q.processedTokenCount = n)
      (fun _ s' => Abandoned base c r.seqId s s') s := by
  have hlaw : (hooks base freeSeq reserved).Lawful := hooks_lawful hl hfree
  unfold chainFinish
  rw [wp_bind, wp_onIndex]
  refine wp_mono (lookup_spec c) ?_ ?_
  · rintro r₀ index ⟨rfl, hr₀⟩
    rw [hr] at hr₀
    cases hr₀
    rw [wp_bind, wp_raiseIf]
    refine ⟨fun hne => absurd rfl hne, fun _ => ?_⟩
    rw [wp_bind, wp_raiseIf]
    refine ⟨fun hidle => absurd hactive hidle, fun _ => ?_⟩
    rw [wp_tryExcept, wp_bind]
    refine wp_mono (wp_and (finishTurn_spec hlaw h hr digest n)
      (keeps_iff (I := SameRecurrent s) |>.mpr (along_finishTurn c r.seqId digest n s))) ?_ ?_
    · rintro q s₁ ⟨⟨h₁, hrows, hrewritten, hidle, -, hcount, -⟩, hsame⟩
      have hq : s₁.index.records.get? c = some q := by
        rw [hrewritten.records, get?_set_self]
      rw [wp_bind]
      refine wp_mono (wp_and (saveFinishedChain_spec hlaw h₁ hq hrows polled)
        (keeps_iff (I := SameRecurrent s₁) |>.mpr (along_saveFinishedChain q polled s₁))) ?_ ?_
      · rintro - s₂ ⟨⟨-, hspares⟩, -⟩
        exact ⟨hspares.stays c q hq (.inl rfl), hidle, hcount⟩
      · rintro e s₂ ⟨⟨h₂, hspares, -⟩, hsame₂⟩
        have hhandler := handler_spec hfree h₂ (hspares.stays c q hq (.inl rfl))
          (hsame₂.trans hsame) e
        rw [hrewritten.seqId] at hhandler
        exact wp_mono hhandler (fun _ _ hf => hf.elim) fun _ _ he => he
    · rintro e s₁ ⟨⟨h₁, hindex⟩, hsame⟩
      exact wp_mono (handler_spec hfree h₁ (hindex ▸ hr) hsame e) (fun _ _ hf => hf.elim)
        fun _ _ he => he
  · rintro e index ⟨-, hnone⟩
    rw [hr] at hnone
    cases hnone

/-- `ChainCacheIndex.finish` raises with the index and its statistics unchanged, or the record is
IDLE with the tokens of the turn and their digest. -/
theorem chain_finish_all_or_nothing {icfg : ChainIndexConfig δ} {index : ChainCacheIndex ι φ δ}
    (hindex : ChainCacheIndex.Inv icfg index) (stats : ChainStats)
    (hl : base.Lawful) (hfree : FreesResidency base freeSeq)
    (h : Accounts (hooks base freeSeq reserved) cfg [] s) :
    (∀ id tokenIds n slots rows capacity,
      (∃ e, countedFinish icfg id tokenIds n slots rows capacity (index, stats) =
        (.error e, (index, stats))) ∨
      ∃ q index', countedFinish icfg id tokenIds n slots rows capacity
          (index, stats) = (.ok q, (index', { stats with finished := stats.finished + 1 })) ∧
        index'.records.get? id = some q ∧ index'.activeRecords.get? id = none ∧
        FinishedWith icfg tokenIds n q) ∧
    (∀ c r, s.index.records.get? c = some r → r.state = .active → ∀ digest n polled,
      (∃ q s', chainFinish base freeSeq reserved cfg c r.seqId digest n polled s = (.ok q, s') ∧
        s'.index.records.get? c = some q ∧ q.state = .idle ∧ q.processedTokenCount = n) ∨
      ∃ e s', chainFinish base freeSeq reserved cfg c r.seqId digest n polled s = (.error e, s') ∧
        Abandoned base c r.seqId s s') := by
  constructor
  · intro id tokenIds n slots rows capacity
    have hspec := countedFinish_spec hindex stats id tokenIds n slots rows capacity
    cases hrun : countedFinish icfg id tokenIds n slots rows capacity (index, stats) with
    | mk result t =>
      cases result with
      | error e =>
        rw [wp_of_error hrun] at hspec
        exact .inl ⟨e, by rw [hspec]⟩
      | ok q =>
        obtain ⟨hinv, hq, hfinished, hstats⟩ := (wp_of_ok hrun).mp hspec
        refine .inr ⟨q, t.1, by rw [← hstats], hq, ?_, hfinished⟩
        by_contra hactive
        obtain ⟨_, hv⟩ := Option.ne_none_iff_exists'.mp hactive
        obtain ⟨q', hq', hstate⟩ := (hinv.active id).mp hv
        rw [hq] at hq'
        cases hq'
        rw [hfinished.state] at hstate
        cases hstate
  · intro c r hr hactive digest n polled
    have hspec := chainFinish_outcome hl hfree h hr hactive digest n polled
    cases hrun : chainFinish base freeSeq reserved cfg c r.seqId digest n polled s with
    | mk result s' =>
      cases result with
      | error e => exact .inr ⟨e, s', rfl, (wp_of_error hrun).mp hspec⟩
      | ok q => exact .inl ⟨q, s', rfl, (wp_of_ok hrun).mp hspec⟩

end

def demoWorkerHooks : ChainManager (WorkerParts (List Nat) Unit Unit) Unit :=
  hooks demoChainManager (fun i => PyM.modify (·.filter (· ≠ i))) fun _ => []

def demoWorker : ChainRuntime Nat Unit Int (WorkerParts (List Nat) Unit Unit) Unit :=
  ((RuntimeOp.admission 7 3 [1, 2] 0).run demoWorkerHooks demoRuntimeConfig
    { manager := ⟨[], ⟨4, by decide, empty.set 3 8⟩, none, .empty⟩ }).2

theorem demoWorker_accounts :
    Accounts demoWorkerHooks demoRuntimeConfig [] demoWorker := by
  have hlaw : demoWorkerHooks.Lawful :=
    hooks_lawful demoChainManager_lawful demoChainManager_lawful.freeSeq
  exact ChainRuntime.Reachable.accounts hlaw (.step _ (.start _) trivial)

/-- A turn without a row cannot be published: the chain is gone, and its window with it. -/
theorem chain_finish_all_or_nothing_demo :
    ∃ e s', chainFinish demoChainManager (fun i => PyM.modify (·.filter (· ≠ i)))
        (fun _ => []) demoRuntimeConfig 7 3 3 2 0 demoWorker = (.error e, s') ∧
      s'.index.records.get? 7 = none ∧ s'.manager.decodeReservations.requests.get? 3 = none := by
  have hempty : ChainCacheIndex.Inv demoChainConfig
      ({} : ChainCacheIndex Nat Unit Int) := inv_empty
  have hfree : FreesResidency demoChainManager
      (fun i => PyM.modify (·.filter (· ≠ i))) := demoChainManager_lawful.freeSeq
  have hturns := (chain_finish_all_or_nothing hempty {} demoChainManager_lawful hfree
    demoWorker_accounts).2
  obtain ⟨r, hr, hactive, hseq⟩ : ∃ r, demoWorker.index.records.get? 7 = some r ∧
      r.state = .active ∧ r.seqId = 3 := by
    refine ⟨{ chainId := 7, seqId := 3, fingerprint := (), state := .active, lastInputTokenCount := 2,
              lastAccess := 1, reservedSlotsByLayer := [2] }, by decide +kernel, rfl, rfl⟩
  have hraises : (chainFinish demoChainManager (fun i => PyM.modify (·.filter (· ≠ i)))
      (fun _ => []) demoRuntimeConfig 7 3 3 2 0 demoWorker).1.toOption = none := by
    decide +kernel
  rcases hturns 7 r hr hactive 3 2 0 with ⟨q, s', hrun, -⟩ | ⟨e, s', hrun, hgone⟩
  · rw [hseq] at hrun
    rw [hrun] at hraises
    cases hraises
  · rw [hseq] at hrun hgone
    exact ⟨e, s', hrun, hgone.record, hgone.parts.window⟩

end WorkerParts

end SparseEngine
