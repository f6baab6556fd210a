import SparseEngine.CacheManager.ResidentWeight
import SparseEngine.CacheManager.Standard
import SparseEngine.PrefixCache.References
import SparseEngine.PrefixCache.MembershipEpochs

/-! `prefix_hit_capacity_counts` says how many blocks of the hit chain count as free capacity now.
-/

namespace SparseEngine

open PyM RadixPrefixIndex

/-- `PrefixHitCapacityCacheEntry`. -/
structure PrefixHitCapacityCacheEntry (ι π : Type) where
  prefixCache : Nat
  lastBlockId : ι
  hitBlocks : Nat
  removeEpoch : Nat
  capacityEpoch : Nat
  offloadEnabled : Bool
  chain : List (PrefixCacheBlock ι π)
  reclaimableBlocks : Nat
  promotionBlocks : Nat
  weightedSlots : Option (Nat × Nat) := none

/-- The index of a manager and its `prefix_hit_capacity_cache`. -/
structure HitCapacityState (ι π : Type) where
  index : RadixPrefixIndex ι π := {}
  indexId : Nat := 0
  cache : Dict Nat (PrefixHitCapacityCacheEntry ι π) := .empty

namespace HitCapacityState

variable {ι π : Type} [LinearOrder ι]

/-- A sum over the blocks of a chain that `keep` selects. -/
def weightSum (weight : π → Except PyError Nat) (keep : PrefixCacheBlock ι π → Bool)
    (s : RadixPrefixIndex ι π) : List (PrefixCacheBlock ι π) → Except PyError Nat
  | [] => .ok 0
  | b :: chain => do
    let block := s.deref b
    let own ← if keep block then weight block.payload else .ok 0
    let rest ← weightSum weight keep s chain
    return own + rest

def chainWeights (needDevice : Bool) (weight : π → Except PyError Nat) (offload : Bool)
    (ids : Finset ι) (s : RadixPrefixIndex ι π) (chain : List (PrefixCacheBlock ι π)) :
    Except PyError (Nat × Nat) := do
  let reclaimable ← weightSum weight (fun b => b.stableBlockId ∈ ids &&
    (!needDevice || b.residency.devicePresent)) s chain
  let promotion ← if offload then weightSum weight (fun b => !b.residency.devicePresent) s chain
    else .ok 0
  return (reclaimable, promotion)

def one : π → Except PyError Nat := fun _ => .ok 1

/-- `device_reclaimable_block_ids() if offload_enabled else freeable_block_ids()`. -/
def capacityBlockIds (offload : Bool) : IndexM ι π (Finset ι) :=
  if offload then deviceReclaimableBlockIds else freeableBlockIds

def weighChain (needDevice : Bool) (weight : π → Except PyError Nat) (offload : Bool)
    (chain : List (PrefixCacheBlock ι π)) : PyM (HitCapacityState ι π) (Nat × Nat) := do
  let ids ← PyM.zoom (·.index) (fun i s => { s with index := i }) (capacityBlockIds offload)
  let s ← PyM.get
  PyM.lift (chainWeights needDevice weight offload ids s.index chain)

/-- `same_chain`. -/
def sameChain (s : HitCapacityState ι π) (seq : Nat) (lastBlockId : ι) (hitBlocks : Nat) :
    Option (PrefixHitCapacityCacheEntry ι π) :=
  (s.cache.get? seq).filter fun e => e.prefixCache = s.indexId ∧ e.lastBlockId = lastBlockId ∧
    e.hitBlocks = hitBlocks ∧ e.removeEpoch = s.index.epochs.remove

/-- The part of `prefix_hit_capacity_counts` that stores a new entry. -/
def refreshEntry (seq : Nat) (lastBlockId : ι) (hitBlocks : Nat) (offload : Bool) :
    PyM (HitCapacityState ι π) (Nat × Nat) := do
  let s ← PyM.get
  let chain ← PyM.lift (match s.sameChain seq lastBlockId hitBlocks with
    | some e => .ok e.chain
    | none => s.index.getChain lastBlockId hitBlocks)
  let counts ← weighChain false one offload chain
  PyM.modify fun s => { s with
    cache := s.cache.set seq ⟨s.indexId, lastBlockId, hitBlocks, s.index.epochs.remove,
      s.index.epochs.capacity, offload, chain, counts.1, counts.2, none⟩ }
  return counts

/-- `prefix_hit_capacity_counts` for a sequence object. -/
def prefixHitCapacityCounts (seq : Nat) (hit : PrefixHit ι) (offload : Bool) :
    PyM (HitCapacityState ι π) (Nat × Nat) :=
  if hit.hitBlockCount = 0 then
    return (0, 0)
  else
    match hit.hitLastBlockId with
    | none => PyM.raise (.runtimeError "seq has prefix hit blocks but no last block id.")
    | some lastBlockId => do
      let s ← PyM.get
      match (s.sameChain seq lastBlockId hit.hitBlockCount).filter fun e =>
          e.capacityEpoch = s.index.epochs.capacity ∧ e.offloadEnabled = offload with
      | some e => return (e.reclaimableBlocks, e.promotionBlocks)
      | none => refreshEntry seq lastBlockId hit.hitBlockCount offload

def prefixHitChain (s : RadixPrefixIndex ι π) (hit : PrefixHit ι) :
    Except PyError (List (PrefixCacheBlock ι π)) :=
  match hit.hitLastBlockId with
  | none => .ok []
  | some lastBlockId => s.getChain lastBlockId hit.hitBlockCount

/-- The common body of `_prefix_hit_capacity_slots` and `_prefix_hit_capacity_pages`. -/
def prefixHitCapacityWeights (needDevice : Bool) (weight : π → Except PyError Nat) (seq : Nat)
    (hit : PrefixHit ι) (offload : Bool) : PyM (HitCapacityState ι π) (Nat × Nat) := do
  let _ ← prefixHitCapacityCounts seq hit offload
  let s ← PyM.get
  match s.cache.get? seq with
  | none => do
    let chain ← PyM.lift (prefixHitChain s.index hit)
    weighChain needDevice weight offload chain
  | some entry =>
    match entry.weightedSlots with
    | some weights => return weights
    | none => do
      let weights ← weighChain needDevice weight offload entry.chain
      PyM.modify fun s => { s with
        cache := s.cache.set seq { entry with weightedSlots := some weights } }
      return weights

/-- `_block_resident_tokens_or_full`. -/
def blockResidentTokensOrFull (blockSize : Nat) :
    Option StandardPrefixBlockPayload → Except PyError Nat
  | some payload => .ok (payload.residentTokens blockSize)
  | none => .ok blockSize

def prefixHitCapacitySlots (blockSize : Nat) :=
  prefixHitCapacityWeights (ι := ι) false (blockResidentTokensOrFull blockSize)

/-- `QuestPrefixBlockPayload.resident_tokens(page_size) // page_size` of the retained
offsets of a payload. -/
def questResidentPages (pageSize : Nat) (retainedOffsets : Option (List Nat)) :
    Except PyError Nat :=
  match retainedOffsets with
  | none => .ok (pageSize / pageSize)
  | some offsets =>
    if offsets = List.range pageSize then .ok (pageSize / pageSize)
    else if offsets.isEmpty then .ok (0 / pageSize)
    else .error (.runtimeError "QuEST prefix blocks cannot retain a partial page.")

def prefixHitCapacityPages (pageSize : Nat) :=
  prefixHitCapacityWeights (ι := ι) true (questResidentPages pageSize)

def scratchIds (offload : Bool) (s : RadixPrefixIndex ι π) : Except PyError (Finset ι) :=
  if offload then deviceReclaimableScan true s else Prod.fst <$> freeableScan s.blocks

def scratchWeights (needDevice : Bool) (weight : π → Except PyError Nat)
    (s : RadixPrefixIndex ι π) (hit : PrefixHit ι) (offload : Bool) :
    Except PyError (Nat × Nat) :=
  if hit.hitBlockCount = 0 then
    .ok (0, 0)
  else
    match hit.hitLastBlockId with
    | none => .error (.runtimeError "seq has prefix hit blocks but no last block id.")
    | some lastBlockId => do
      let chain ← s.getChain lastBlockId hit.hitBlockCount
      let ids ← scratchIds offload s
      chainWeights needDevice weight offload ids s chain

section

variable {s s' : RadixPrefixIndex ι π} {cfg : PrefixIndexConfig ι} {op : Op ι π}

theorem ensureInsertCapacity_traced (h : WellFormed s) (needed : Int) :
    Keeps (Traced s) (ensureInsertCapacity cfg needed) s := by
  unfold ensureInsertCapacity
  cases cfg.maxBlocks with
  | none => exact .refl s
  | some m =>
    simp only [Keeps, wp_bind, wp_raiseIf, wp_get, wp_ite]
    refine ⟨fun _ => .refl s, fun _ => ?_⟩
    split
    · exact .refl s
    · refine wp_mono (evictUntilWeight_spec h _ _) ?_ fun _ _ he => he.1.choose_spec.traced
      intro bs s₁ hev
      have htraced := hev.removals.traced
      split
      · exact htraced
      · have hquery : Along Traced (evictableBlockIds : IndexM ι π (Finset ι)) :=
          fun s => (evictableBlockIds_inPlace s).traced
        exact hquery.wp (fun _ s₂ hs => htraced.trans hs) fun _ s₂ hs => htraced.trans hs

theorem next_traced (h : WellFormed s) (op : Op ι π) : Traced s (op.next cfg s) := by
  have hin : ∀ {α : Type} {m : IndexM ι π α}, Along InPlace m → Traced s (ignore m s).2 :=
    fun hm => (along_bind hm (fun _ => along_pure _) s).traced
  have hin' : ∀ {m : IndexM ι π Unit}, Along InPlace m → Traced s (m s).2 :=
    fun hm => (hm s).traced
  have removes : ∀ {α : Type} {m : IndexM ι π α}, wp m (fun _ s' => ∃ bs, Removals s s' bs)
      (fun _ s' => ∃ bs, Removals s s' bs) s → Traced s (ignore m s).2 := fun hm =>
    keeps_iff.mp (keeps_ignore.mpr (wp_mono hm (fun _ _ hs => hs.choose_spec.traced)
      fun _ _ hs => hs.choose_spec.traced))
  cases op with
  | insertBlock b => exact along_bind (insertBlock_traced cfg b) (fun _ => along_pure _) s
  | setBlockRefCount b n => exact hin' (setBlockRefCount_inPlace b n _)
  | acquireBlockRef b =>
    exact hin' (along_bind along_get fun _ => setBlockRefCount_inPlace b _ _)
  | releaseBlockRef b =>
    exact hin' (along_bind along_get fun _ => setBlockRefCount_inPlace b _ _)
  | beginD2h b => exact hin' (beginD2h_inPlace b)
  | finishD2h b => exact hin' (finishD2h_inPlace b)
  | abortD2h b => exact hin' (abortD2h_inPlace b)
  | beginH2d b => exact hin' (beginH2d_inPlace b)
  | finishH2d b => exact hin' (finishH2d_inPlace b)
  | abortH2d b => exact hin' (abortH2d_inPlace b)
  | demoteDeviceUntilWeight n w => exact hin (demoteDeviceUntilWeight_inPlace n w)
  | evictUntilWeight n w =>
    exact removes (wp_mono (evictUntilWeight_spec h n w) (fun _ _ hs => ⟨_, hs.removals⟩)
      fun _ _ he => he.1)
  | evictHostUntilWeight n w =>
    exact removes (wp_mono (evictHostUntilWeight_spec h n w) (fun _ _ hs => ⟨_, hs.removals⟩)
      fun _ _ he => he.1)
  | ensureInsertCapacity n => exact keeps_iff.mp (keeps_ignore.mpr (ensureInsertCapacity_traced h n))
  | safeDeleteSubtree t => exact removes (safeDeleteSubtree_spec cfg h t)
  | setSubtreeEvictionPriority t p => exact hin (setSubtreeEvictionPriority_inPlace cfg t p)
  | rollbackInsertedLeaf b =>
    refine keeps_iff.mp (wp_mono (rollbackInsertedLeaf_removes h b) ?_ fun _ _ he => he ▸ .refl s)
    rintro - s' ⟨c, s₁, -, hr, hstep, hblocks, rfl⟩
    have hremove := (hstep.remove_epochs hr.1 hblocks).2
    exact ⟨by simp only [hremove]; omega, fun he => by simp only [hremove] at he; omega⟩
  | markPayloadCompacted bs => exact hin' (markPayloadCompacted_inPlace bs)
  | compactPayloads ids f =>
    exact hin' (along_bind along_get fun _ => along_bind (along_forEach fun _ _ =>
      along_modify fun s => inPlace_assign s _) fun _ => markPayloadCompacted_inPlace _)
  | touchChain bs => exact hin' (touchChain_inPlace bs)
  | freeableBlockIds => exact hin freeableBlockIds_inPlace
  | evictableBlockIds => exact hin evictableBlockIds_inPlace
  | deviceFreeableBlockIds => exact hin (deviceReclaimableIds_inPlace false)
  | deviceReclaimableBlockIds => exact hin (deviceReclaimableIds_inPlace true)
  | takeRemovedBlockIdsForCapacity =>
    refine hin (along_bind along_get fun s => ?_)
    split
    · exact along_bind (along_modify fun s => ⟨rfl, rfl, rfl⟩) fun _ => along_pure _
    · exact along_pure _

theorem updated_back {R : PrefixCacheBlock ι π → PrefixCacheBlock ι π → Prop}
    (h : Updated R s.blocks s'.blocks) {id : ι} {n : PrefixCacheBlock ι π}
    (hn : s'.blocks.get? id = some n) : ∃ o, s.blocks.get? id = some o ∧ SameIdentity o n := by
  obtain ⟨o, ho⟩ := Dict.mem_keySet.mp (h.keys ▸ Dict.mem_keySet.mpr ⟨n, hn⟩)
  exact ⟨o, ho, (h.same id o n ho hn).1⟩

theorem steps_back (h : Steps s s') {id : ι} {n : PrefixCacheBlock ι π}
    (hn : s'.blocks.get? id = some n) : ∃ o, s.blocks.get? id = some o ∧ SameIdentity o n := by
  induction h generalizing n with
  | refl => exact ⟨n, hn, .refl n⟩
  | @tail s₁ s₂ _ hstep ih =>
    have hone : ∃ o, s₁.blocks.get? id = some o ∧ SameIdentity o n := by
      cases hstep.change with
      | update hupd _ _ _ _ => exact updated_back hupd hn
      | quiet hupd _ _ _ _ => exact updated_back hupd hn
      | remove _ _ _ hblocks _ _ _ =>
        rw [hblocks, Dict.get?_erase] at hn
        split at hn
        · cases hn
        · exact ⟨n, hn, .refl n⟩
      | view hblocks _ _ _ => exact ⟨n, hblocks ▸ hn, .refl n⟩
    obtain ⟨o, ho, hid⟩ := hone
    obtain ⟨o', ho', hid'⟩ := ih ho
    exact ⟨o', ho', hid'.trans hid⟩

def Kept (s s' : RadixPrefixIndex ι π) : Prop :=
  ∀ id o, s.blocks.get? id = some o → ∃ n, s'.blocks.get? id = some n ∧ SameIdentity o n

theorem next_kept (h : WellFormed s)
    (he : (op.next cfg s).epochs.remove = s.epochs.remove) : Kept s (op.next cfg s) := by
  intro id o ho
  obtain ⟨n, hn⟩ := Dict.mem_keySet.mp ((next_traced h op).2 he (Dict.mem_keySet.mpr ⟨o, ho⟩))
  refine ⟨n, hn, ?_⟩
  have ho : Outcome s op (op.next cfg s) := run_outcome h op
  cases ho with
  | steps hs =>
    obtain ⟨o', ho', hid⟩ := steps_back hs hn
    rw [ho] at ho'
    cases ho'
    exact hid
  | insert _ hins =>
    rw [hins.blocks, Dict.get?_set_ne] at hn
    · rw [ho] at hn
      cases hn
      exact .refl _
    · rintro rfl
      rw [hins.new] at ho
      cases ho
  | taken _ hs =>
    rw [hs] at hn
    rw [ho] at hn
    cases hn
    exact .refl _

structure Idle (weight : π → Except PyError Nat) (s s' : RadixPrefixIndex ι π) : Prop where
  blocks : ∀ id o, s.blocks.get? id = some o → ∃ n, s'.blocks.get? id = some n ∧
    SameIdentity o n ∧ n.residency = o.residency ∧ weight n.payload = weight o.payload
  views : ∀ (v : View) id, v.Contains s'.blocks id ↔ v.Contains s.blocks id

variable {weight : π → Except PyError Nat}

theorem Idle.of_blocks (h : s'.blocks = s.blocks) : Idle weight s s' :=
  ⟨fun id o ho => ⟨o, h ▸ ho, .refl o, rfl, rfl⟩, fun v id => by rw [h]⟩

theorem Idle.trans {s'' : RadixPrefixIndex ι π} (h : Idle weight s s') (h' : Idle weight s' s'') :
    Idle weight s s'' := by
  refine ⟨fun id o ho => ?_, fun v id => (h'.views v id).trans (h.views v id)⟩
  obtain ⟨n, hn, hid, hres, hw⟩ := h.blocks id o ho
  obtain ⟨n', hn', hid', hres', hw'⟩ := h'.blocks id n hn
  exact ⟨n', hn', hid.trans hid', hres'.trans hres, hw'.trans hw⟩

theorem steps_idle (h : Steps s s') : s.epochs.capacity ≤ s'.epochs.capacity ∧
    (s'.epochs.capacity = s.epochs.capacity → Idle weight s s') := by
  induction h with
  | refl => exact ⟨le_rfl, fun _ => .of_blocks rfl⟩
  | @tail s₁ s₂ _ hstep ih =>
    have hone : s₁.epochs.capacity ≤ s₂.epochs.capacity ∧
        (s₂.epochs.capacity = s₁.epochs.capacity → Idle weight s₁ s₂) := by
      cases hstep.change with
      | update _ hlt _ _ _ => exact ⟨hlt.le, fun he => absurd he hlt.ne'⟩
      | quiet hupd heq _ _ _ =>
        refine ⟨heq.ge, fun _ => ⟨fun id o ho => ?_, fun v id =>
          View.contains_updated (hupd.mono fun _ _ h => h.toSameLocal) v id⟩⟩
        obtain ⟨n, hn, hid, hv⟩ := hupd.get ho
        exact ⟨n, hn, hid, hv.residency, by rw [hv.payload]⟩
      | remove _ _ _ _ he _ _ =>
        have hlt : s₁.epochs.capacity < s₂.epochs.capacity := by
          rw [he]
          exact Nat.lt_succ_self _
        exact ⟨hlt.le, fun he => absurd he hlt.ne'⟩
      | view hblocks he _ _ => exact ⟨by rw [he], fun _ => .of_blocks hblocks⟩
    refine ⟨ih.1.trans hone.1, fun he => ?_⟩
    have hle := ih.1
    have hle' := hone.1
    exact (ih.2 (by omega)).trans (hone.2 (by omega))

def SafeOp (s : RadixPrefixIndex ι π) (op : Op ι π) : Prop :=
  ∀ b, op = .insertBlock b → s.blocks.get? b.stableBlockId = none → InsertSafe s.blocks b

theorem next_idle (h : WellFormed s) (hsafe : SafeOp s op) :
    s.epochs.capacity ≤ (op.next cfg s).epochs.capacity ∧
    ((op.next cfg s).epochs.capacity = s.epochs.capacity → Idle weight s (op.next cfg s)) := by
  have ho : Outcome s op (op.next cfg s) := run_outcome h op
  cases ho with
  | steps hs => exact steps_idle hs
  | @insert b n hop hins =>
    refine ⟨?_, fun he => ⟨fun id o ho => ⟨o, ?_, .refl o, rfl, rfl⟩, fun v id =>
      hins.contains h (fun _ => hsafe b hop hins.new) he id⟩⟩
    · rcases hins.capacity h.forest with hlt | ⟨heq, -⟩
      · exact hlt.le
      · exact heq.ge
    · rw [hins.blocks, Dict.get?_set_ne]
      · exact ho
      · rintro rfl
        rw [hins.new] at ho
        cases ho
  | taken _ hs => exact ⟨by rw [hs], fun _ => .of_blocks (by rw [hs])⟩

end

section

variable {s s' : RadixPrefixIndex ι π} {needDevice offload : Bool}
  {weight : π → Except PyError Nat} {F : Finset ι} {chain chain' : List (PrefixCacheBlock ι π)}
  {e : PrefixHitCapacityCacheEntry ι π} {lastBlockId : ι} {hitBlocks : Nat}

def SameRead (weight : π → Except PyError Nat) (s s' : RadixPrefixIndex ι π)
    (b b' : PrefixCacheBlock ι π) : Prop :=
  (s'.deref b').stableBlockId = (s.deref b).stableBlockId ∧
    (s'.deref b').residency = (s.deref b).residency ∧
    weight (s'.deref b').payload = weight (s.deref b).payload

theorem weightSum_congr (keep : ι → PrefixBlockResidency → Bool)
    (h : List.Forall₂ (SameRead weight s s') chain chain') :
    weightSum weight (fun b => keep b.stableBlockId b.residency) s' chain' =
      weightSum weight (fun b => keep b.stableBlockId b.residency) s chain := by
  induction h with
  | nil => rfl
  | cons hb _ ih => simp only [weightSum, hb.1, hb.2.1, hb.2.2, ih]

theorem chainWeights_congr (h : List.Forall₂ (SameRead weight s s') chain chain') :
    chainWeights needDevice weight offload F s' chain' =
      chainWeights needDevice weight offload F s chain := by
  unfold chainWeights
  rw [weightSum_congr (fun id r => id ∈ F && (!needDevice || r.devicePresent)) h,
    weightSum_congr (fun _ r => !r.devicePresent) h]

/-- The handles of `chain` are indexed, and they are the end of a root path. -/
structure ChainHeld (s : RadixPrefixIndex ι π) (lastBlockId : ι) (hitBlocks : Nat)
    (chain : List (PrefixCacheBlock ι π)) : Prop where
  path : ∃ l, RootPath (parentMap s.blocks) lastBlockId l ∧
    chain.map (·.stableBlockId) = l.drop (l.length - hitBlocks) ∧ hitBlocks ≤ l.length
  indexed : ∀ b ∈ chain, s.isIndexed b = true

theorem ChainHeld.kept (h : ChainHeld s lastBlockId hitBlocks chain) (hk : Kept s s') :
    ChainHeld s' lastBlockId hitBlocks chain := by
  obtain ⟨l, hl, hids, hlen⟩ := h.path
  have hparent : ∀ {id q}, parentMap s.blocks id = some q → parentMap s'.blocks id = some q := by
    intro id q hq
    obtain ⟨b, hb, rfl⟩ := parentMap_eq.mp hq
    obtain ⟨n, hn, hid⟩ := hk id b hb
    rw [parentMap_of_get hn, hid.parentBlockId]
  have hpath : ∀ {id l}, RootPath (parentMap s.blocks) id l → RootPath (parentMap s'.blocks) id l := by
    intro id l hl
    induction hl with
    | root hr => exact .root (hparent hr)
    | child hc _ ih => exact .child (hparent hc) ih
  refine ⟨⟨l, hpath hl, hids, hlen⟩, fun b hb => ?_⟩
  obtain ⟨c, hc, ho⟩ := isIndexed_iff.mp (h.indexed b hb)
  obtain ⟨n, hn, hid⟩ := hk _ c hc
  exact isIndexed_iff.mpr ⟨n, hn, hid.objectId.trans ho⟩

theorem mapM_indexed : ∀ {chain : List (PrefixCacheBlock ι π)}, (∀ b ∈ chain, s.isIndexed b = true) →
    ((chain.map (·.stableBlockId)).mapM fun blockId => match s.blocks.get? blockId with
      | none => (.error (.runtimeError "Prefix cache chain is incomplete") : Except PyError _)
      | some block => .ok block) = .ok (chain.map s.deref) := by
  intro chain hin
  induction chain with
  | nil => rfl
  | cons b chain ih =>
    obtain ⟨c, hc, ho⟩ := isIndexed_iff.mp (hin b List.mem_cons_self)
    rw [List.map_cons, List.mapM_cons, ih fun x hx => hin x (List.mem_cons_of_mem b hx),
      List.map_cons, deref_of_indexed hc ho, hc]
    rfl

theorem ChainHeld.getChain (h : ChainHeld s lastBlockId hitBlocks chain) (hwf : WellFormed s)
    (hpos : 0 < hitBlocks) : s.getChain lastBlockId hitBlocks = .ok (chain.map s.deref) := by
  obtain ⟨l, hl, hids, hlen⟩ := h.path
  unfold RadixPrefixIndex.getChain
  rw [if_neg (by omega), hwf.tree.pathToBlock_spec hwf.forest hl]
  simp only [bind, Except.bind]
  rw [if_neg (by omega), Int.toNat_natCast, ← hids]
  exact mapM_indexed h.indexed

theorem chainHeld_of_getChain (hwf : WellFormed s)
    (h : s.getChain lastBlockId hitBlocks = .ok chain) : ChainHeld s lastBlockId hitBlocks chain :=
  ⟨(getChain_spec hwf h).path, (getChain_spec hwf h).isIndexed⟩

/-- The view of `capacityBlockIds`. -/
def capacityView (offload : Bool) : View := if offload then .deviceReclaimable else .freeable

/-- `F` is the capacity view of the blocks. -/
def IsView (offload : Bool) (s : RadixPrefixIndex ι π) (F : Finset ι) : Prop :=
  ∀ id, id ∈ F ↔ (capacityView offload).Contains s.blocks id

structure Right (needDevice : Bool) (weight : π → Except PyError Nat) (s : RadixPrefixIndex ι π)
    (e : PrefixHitCapacityCacheEntry ι π) : Prop where
  counts : ∀ F, IsView e.offloadEnabled s F → chainWeights false one e.offloadEnabled F s e.chain =
    .ok (e.reclaimableBlocks, e.promotionBlocks)
  weights : ∀ w, e.weightedSlots = some w → ∀ F, IsView e.offloadEnabled s F →
    chainWeights needDevice weight e.offloadEnabled F s e.chain = .ok w

/-- An entry is right as long as its epochs are those of the index. -/
structure EntryOk (needDevice : Bool) (weight : π → Except PyError Nat)
    (s : RadixPrefixIndex ι π) (e : PrefixHitCapacityCacheEntry ι π) : Prop where
  remove : e.removeEpoch ≤ s.epochs.remove
  capacity : e.capacityEpoch ≤ s.epochs.capacity
  chain : e.removeEpoch = s.epochs.remove → ChainHeld s e.lastBlockId e.hitBlocks e.chain
  right : e.removeEpoch = s.epochs.remove → e.capacityEpoch = s.epochs.capacity →
    Right needDevice weight s e

theorem Idle.sameRead (h : Idle weight s s') (hin : ∀ b ∈ chain, s.isIndexed b = true) :
    List.Forall₂ (SameRead weight s s') chain chain := by
  refine List.forall₂_same.mpr fun b hb => ?_
  obtain ⟨c, hc, ho⟩ := isIndexed_iff.mp (hin b hb)
  obtain ⟨n, hn, hid, hres, hw⟩ := h.blocks _ c hc
  rw [SameRead, deref_of_indexed hc ho, deref_of_indexed hn (hid.objectId.trans ho)]
  exact ⟨hid.stableBlockId, hres, hw⟩

theorem EntryOk.mono (h : EntryOk needDevice weight s e)
    (hremove : s.epochs.remove ≤ s'.epochs.remove)
    (hkept : s'.epochs.remove = s.epochs.remove → Kept s s')
    (hcapacity : s.epochs.capacity ≤ s'.epochs.capacity)
    (hidle : s'.epochs.capacity = s.epochs.capacity → Idle weight s s') :
    EntryOk needDevice weight s' e where
  remove := h.remove.trans hremove
  capacity := h.capacity.trans hcapacity
  chain he := (h.chain (by have := h.remove; omega)).kept (hkept (by have := h.remove; omega))
  right he hc := by
    have hle := h.remove
    have hle' := h.capacity
    have hr := h.right (by omega) (by omega)
    have hin := (h.chain (by omega)).indexed
    have hi := hidle (by omega)
    have hone : Idle one s s' := ⟨fun id o ho => by
      obtain ⟨n, hn, hid, hres, -⟩ := hi.blocks id o ho
      exact ⟨n, hn, hid, hres, rfl⟩, hi.views⟩
    have hview : ∀ {F}, IsView e.offloadEnabled s' F → IsView e.offloadEnabled s F := fun hF id =>
      (hF id).trans (hi.views _ id)
    exact ⟨fun F hF => (chainWeights_congr (hone.sameRead hin)).trans (hr.counts F (hview hF)),
      fun w hw F hF => (chainWeights_congr (hi.sameRead hin)).trans (hr.weights w hw F (hview hF))⟩

end

section

variable {s s' : HitCapacityState ι π} {needDevice offload : Bool}
  {weight : π → Except PyError Nat} {chain : List (PrefixCacheBlock ι π)}

structure Queried (i i' : RadixPrefixIndex ι π) : Prop where
  steps : Steps i i'
  blocks : i'.blocks = i.blocks
  remove : i'.epochs.remove = i.epochs.remove

theorem Queried.capacity_le {i i' : RadixPrefixIndex ι π} (h : Queried i i') :
    i.epochs.capacity ≤ i'.epochs.capacity := by
  have hidle : _ ∧ (_ → Idle one i i') := steps_idle h.steps
  exact hidle.1

structure CapacityInv (needDevice : Bool) (weight : π → Except PyError Nat)
    (s : HitCapacityState ι π) : Prop where
  wf : WellFormed s.index
  fresh : ∀ v, Fresh v s.index
  entries : ∀ seq e, s.cache.get? seq = some e → e.prefixCache ≤ s.indexId ∧
    (e.prefixCache = s.indexId → EntryOk needDevice weight s.index e)

theorem CapacityInv.mono (h : CapacityInv needDevice weight s) {i : RadixPrefixIndex ι π}
    (hwf : WellFormed i) (hfresh : ∀ v, Fresh v i)
    (hremove : s.index.epochs.remove ≤ i.epochs.remove)
    (hkept : i.epochs.remove = s.index.epochs.remove → Kept s.index i)
    (hcapacity : s.index.epochs.capacity ≤ i.epochs.capacity)
    (hidle : i.epochs.capacity = s.index.epochs.capacity → Idle weight s.index i) :
    CapacityInv needDevice weight { s with index := i } :=
  ⟨hwf, hfresh, fun seq e he => ⟨(h.entries seq e he).1, fun hid =>
    ((h.entries seq e he).2 hid).mono hremove hkept hcapacity hidle⟩⟩

theorem CapacityInv.queried (h : CapacityInv needDevice weight s) {i : RadixPrefixIndex ι π}
    (hq : Queried s.index i) : CapacityInv needDevice weight { s with index := i } :=
  h.mono (hq.steps.wf h.wf) (fun v => hq.steps.fresh (h.fresh v)) hq.remove.ge
    (fun _ _ o ho => ⟨o, hq.blocks ▸ ho, .refl o⟩) hq.capacity_le fun _ => .of_blocks hq.blocks

theorem CapacityInv.stored (h : CapacityInv needDevice weight s) (seq : Nat)
    {e : PrefixHitCapacityCacheEntry ι π} (hid : e.prefixCache = s.indexId)
    (he : EntryOk needDevice weight s.index e) :
    CapacityInv needDevice weight { s with cache := s.cache.set seq e } := by
  refine ⟨h.wf, h.fresh, fun seq' e' hget => ?_⟩
  rw [Dict.get?_set] at hget
  split at hget
  · cases hget
    exact ⟨hid.le, fun _ => he⟩
  · exact h.entries seq' e' hget

theorem scratchIds_spec {s : RadixPrefixIndex ι π} (hwf : WellFormed s) :
    ∃ F, scratchIds offload s = .ok F ∧ IsView offload s F := by
  cases offload with
  | true =>
    obtain ⟨F, hscan, hmem⟩ := deviceReclaimableScan_spec true hwf
    exact ⟨F, hscan, fun id => (hmem id).trans deviceView_contains.symm⟩
  | false =>
    obtain ⟨F, counts, hscan, htracks⟩ := freeableScan_spec hwf.forest
    refine ⟨F, ?_, fun id => htracks.mem_iff hwf.forest⟩
    simp only [scratchIds, Bool.false_eq_true, if_false, hscan]
    rfl

theorem IsView.unique {s : RadixPrefixIndex ι π} {F F' : Finset ι} (h : IsView offload s F)
    (h' : IsView offload s F') : F = F' :=
  Finset.ext fun id => (h id).trans (h' id).symm

theorem capacityBlockIds_spec (h : CapacityInv needDevice weight s) :
    wp (capacityBlockIds offload) (fun F i => IsView offload s.index F ∧ Queried s.index i)
      (fun _ _ => False) s.index := by
  cases offload with
  | true =>
    have hin := deviceReclaimableIds_inPlace (ι := ι) (π := π) true
    refine wp_mono (wp_and (deviceReclaimableIds_spec h.wf) (keeps_iff.mpr (hin s.index))) ?_
      fun _ _ he => he.1.elim
    exact fun F i hF => ⟨hF.1.1.contains (h.fresh _), hF.1.2.1, hF.1.2.2, hF.2.2.2⟩
  | false =>
    have hin := freeableBlockIds_inPlace (ι := ι) (π := π)
    refine wp_mono (wp_and (freeableBlockIds_spec h.wf) (keeps_iff.mpr (hin s.index))) ?_
      fun _ _ he => he.1.elim
    exact fun F i hF => ⟨hF.1.1.contains (h.fresh _), hF.1.2.1, hF.1.2.2, hF.2.2.2⟩

theorem chainWeights_blocks {i i' : RadixPrefixIndex ι π} {F : Finset ι}
    (h : i'.blocks = i.blocks) : chainWeights needDevice weight offload F i' chain =
      chainWeights needDevice weight offload F i chain := by
  have hderef : ∀ b, i'.deref b = i.deref b := fun b => by simp only [deref, h]
  refine chainWeights_congr (List.forall₂_same.mpr fun b _ => ?_)
  rw [SameRead, hderef]
  exact ⟨rfl, rfl, rfl⟩

theorem weighChain_spec (h : CapacityInv needDevice weight s) (needDevice' : Bool)
    (weight' : π → Except PyError Nat) :
    wp (weighChain needDevice' weight' offload chain)
      (fun r s' => ∃ i F, s' = { s with index := i } ∧ Queried s.index i ∧
        IsView offload s.index F ∧ chainWeights needDevice' weight' offload F s.index chain = .ok r)
      (fun e s' => ∃ i F, s' = { s with index := i } ∧ Queried s.index i ∧
        IsView offload s.index F ∧
        chainWeights needDevice' weight' offload F s.index chain = .error e) s := by
  unfold weighChain
  rw [wp_bind, wp_zoom]
  refine wp_mono (capacityBlockIds_spec h) ?_ fun _ _ he => he.elim
  rintro F i ⟨hview, hq⟩
  simp only [wp_bind, wp_get, wp_lift]
  have heq : chainWeights needDevice' weight' offload F i chain =
    chainWeights needDevice' weight' offload F s.index chain := chainWeights_blocks hq.blocks
  split
  · next r hr => exact ⟨i, F, rfl, hq, hview, heq.symm.trans hr⟩
  · next e he => exact ⟨i, F, rfl, hq, hview, heq.symm.trans he⟩

theorem scratchWeights_held {s : RadixPrefixIndex ι π} {hit : PrefixHit ι} {lastBlockId : ι}
    {F : Finset ι} (hwf : WellFormed s) (hpos : hit.hitBlockCount ≠ 0)
    (hlast : hit.hitLastBlockId = some lastBlockId)
    (held : ChainHeld s lastBlockId hit.hitBlockCount chain) (hF : IsView offload s F) :
    scratchWeights needDevice weight s hit offload =
      chainWeights needDevice weight offload F s chain := by
  obtain ⟨F', hscan, hF'⟩ := scratchIds_spec hwf
  obtain rfl := hF.unique hF'
  simp only [scratchWeights, if_neg hpos, hlast, held.getChain hwf (Nat.pos_of_ne_zero hpos),
    hscan, bind, Except.bind]
  refine chainWeights_congr (List.forall₂_map_right_iff.mpr (List.forall₂_same.mpr fun b hb => ?_))
  obtain ⟨c, hc, ho⟩ := isIndexed_iff.mp (held.indexed b hb)
  have hid : c.stableBlockId = b.stableBlockId := hwf.ids _ c hc
  rw [SameRead, deref_of_indexed hc ho, deref_of_indexed (hid ▸ hc) rfl]
  exact ⟨rfl, rfl, rfl⟩

theorem weightSum_one (keep : PrefixCacheBlock ι π → Bool) {s : RadixPrefixIndex ι π} :
    ∀ chain, ∃ n, weightSum one keep s chain = .ok n
  | [] => ⟨0, rfl⟩
  | b :: chain => by
    obtain ⟨n, hn⟩ := weightSum_one keep (s := s) chain
    simp only [weightSum, hn]
    split <;> exact ⟨_, rfl⟩

theorem chainWeights_one (needDevice offload : Bool) (F : Finset ι) (s : RadixPrefixIndex ι π)
    (chain : List (PrefixCacheBlock ι π)) : ∃ r, chainWeights needDevice one offload F s chain = .ok r := by
  obtain ⟨n, hn⟩ := weightSum_one (fun b => b.stableBlockId ∈ F &&
    (!needDevice || b.residency.devicePresent)) (s := s) chain
  obtain ⟨m, hm⟩ := weightSum_one (fun b => !b.residency.devicePresent) (s := s) chain
  simp only [chainWeights, hn, hm]
  split <;> exact ⟨_, rfl⟩

structure Recounted (needDevice : Bool) (weight : π → Except PyError Nat) (seq : Nat)
    (hit : PrefixHit ι) (offload : Bool) (s s' : HitCapacityState ι π) : Prop where
  inv : CapacityInv needDevice weight s'
  identity : s'.indexId = s.indexId
  queried : Queried s.index s'.index
  unhit : hit.hitBlockCount = 0 → s'.cache = s.cache
  entry : hit.hitBlockCount ≠ 0 → ∃ lastBlockId e, hit.hitLastBlockId = some lastBlockId ∧
    s'.cache.get? seq = some e ∧ e.prefixCache = s'.indexId ∧ e.lastBlockId = lastBlockId ∧
    e.hitBlocks = hit.hitBlockCount ∧ e.removeEpoch = s'.index.epochs.remove ∧
    e.capacityEpoch = s'.index.epochs.capacity ∧ e.offloadEnabled = offload

theorem sameChain_some {seq : Nat} {lastBlockId : ι} {hitBlocks : Nat}
    {e : PrefixHitCapacityCacheEntry ι π} (h : s.sameChain seq lastBlockId hitBlocks = some e) :
    s.cache.get? seq = some e ∧ e.prefixCache = s.indexId ∧ e.lastBlockId = lastBlockId ∧
      e.hitBlocks = hitBlocks ∧ e.removeEpoch = s.index.epochs.remove := by
  obtain ⟨hget, hsame⟩ := Option.filter_eq_some_iff.mp h
  exact ⟨hget, by simpa using hsame⟩

theorem chainHeld_of_cached (h : CapacityInv needDevice weight s) {seq hitBlocks : Nat}
    {lastBlockId : ι} {chain : List (PrefixCacheBlock ι π)}
    (hc : (match s.sameChain seq lastBlockId hitBlocks with
      | some e => Except.ok e.chain
      | none => s.index.getChain lastBlockId hitBlocks) = .ok chain) :
    ChainHeld s.index lastBlockId hitBlocks chain := by
  split at hc
  · next e he =>
    obtain ⟨hget, hid, hl, hn, hr⟩ := sameChain_some he
    cases hc
    exact hl ▸ hn ▸ ((h.entries seq e hget).2 hid).chain hr
  · exact chainHeld_of_getChain h.wf hc

theorem refreshEntry_spec (h : CapacityInv needDevice weight s) (seq : Nat) {hit : PrefixHit ι}
    {lastBlockId : ι} (hpos : hit.hitBlockCount ≠ 0) (hlast : hit.hitLastBlockId = some lastBlockId) :
    wp (refreshEntry seq lastBlockId hit.hitBlockCount offload)
      (fun c s' => Recounted needDevice weight seq hit offload s s' ∧
        scratchWeights false one s.index hit offload = .ok c)
      (fun e s' => CapacityInv needDevice weight s' ∧
        ∀ needDevice' (weight' : π → Except PyError Nat),
          scratchWeights needDevice' weight' s.index hit offload = .error e) s := by
  simp only [refreshEntry, wp_bind, wp_get, wp_lift]
  split
  · next chain hc =>
    have held := chainHeld_of_cached h hc
    refine wp_mono (weighChain_spec h false one) ?_ ?_
    · rintro c s' ⟨i, F, rfl, hq, hF, hcounts⟩
      have hscratch := (scratchWeights_held h.wf hpos hlast held hF).trans hcounts
      have hF' : IsView offload i F := fun id => by rw [hq.blocks]; exact hF id
      rw [wp_modify]
      refine ⟨⟨(h.queried hq).stored seq rfl ⟨le_rfl, le_rfl, fun _ => ?_, fun _ _ => ⟨?_, (by simp)⟩⟩,
        rfl, hq, fun hz => absurd hz hpos, fun _ => ⟨_, _, hlast, Dict.get?_set_self _ _ _, rfl, rfl,
          rfl, rfl, rfl, rfl⟩⟩, hscratch⟩
      · exact held.kept fun id o ho => ⟨o, hq.blocks ▸ ho, .refl o⟩
      · intro F' hview
        rw [hview.unique hF', chainWeights_blocks hq.blocks]
        exact hcounts
    · rintro e s' ⟨i, F, rfl, -, -, herr⟩
      obtain ⟨r, hr⟩ := chainWeights_one false offload F s.index chain
      rw [hr] at herr
      cases herr
  · next e he =>
    refine ⟨h, fun needDevice' weight' => ?_⟩
    have hraise : s.index.getChain lastBlockId hit.hitBlockCount = .error e := by
      split at he
      · cases he
      · exact he
    simp only [scratchWeights, if_neg hpos, hlast, hraise, bind, Except.bind]

theorem prefixHitCapacityCounts_spec (h : CapacityInv needDevice weight s) (seq : Nat)
    (hit : PrefixHit ι) :
    wp (prefixHitCapacityCounts seq hit offload)
      (fun c s' => Recounted needDevice weight seq hit offload s s' ∧
        scratchWeights false one s.index hit offload = .ok c)
      (fun e s' => CapacityInv needDevice weight s' ∧
        ∀ needDevice' (weight' : π → Except PyError Nat),
          scratchWeights needDevice' weight' s.index hit offload = .error e) s := by
  have hidle : Queried s.index s.index := ⟨.refl, rfl, rfl⟩
  unfold prefixHitCapacityCounts
  split
  · next hz =>
    exact ⟨⟨h, rfl, hidle, fun _ => rfl, fun hn => absurd hz hn⟩, by rw [scratchWeights, if_pos hz]⟩
  · next hpos =>
    cases hlast : hit.hitLastBlockId with
    | none =>
      refine ⟨h, fun needDevice' weight' => ?_⟩
      simp only [scratchWeights, if_neg hpos, hlast]
    | some lastBlockId =>
      simp only [wp_bind, wp_get]
      split
      · next e he =>
        obtain ⟨hsame, hnow⟩ := Option.filter_eq_some_iff.mp he
        obtain ⟨hget, hid, hl, hn, hr⟩ := sameChain_some hsame
        obtain ⟨hc, ho⟩ : e.capacityEpoch = s.index.epochs.capacity ∧ e.offloadEnabled = offload := by
          simpa using hnow
        have hok := (h.entries seq e hget).2 hid
        obtain ⟨F, -, hF⟩ : ∃ F, scratchIds offload s.index = .ok F ∧ IsView offload s.index F :=
          scratchIds_spec h.wf
        have held : ChainHeld s.index lastBlockId hit.hitBlockCount e.chain := hl ▸ hn ▸ hok.chain hr
        have hcounts := (hok.right hr hc).counts F (ho ▸ hF)
        rw [ho] at hcounts
        exact ⟨⟨h, rfl, hidle, fun hz => absurd hz hpos, fun _ =>
          ⟨_, e, hlast, hget, hid, hl, hn, hr, hc, ho⟩⟩,
          (scratchWeights_held h.wf hpos hlast held hF).trans hcounts⟩
      · exact refreshEntry_spec h seq hpos hlast

theorem prefixHitCapacityWeights_spec (h : CapacityInv needDevice weight s) (seq : Nat)
    (hit : PrefixHit ι) (hunhit : hit.hitBlockCount = 0 →
      hit.hitLastBlockId = none ∧ s.cache.get? seq = none) :
    wp (prefixHitCapacityWeights needDevice weight seq hit offload)
      (fun r s' => CapacityInv needDevice weight s' ∧
        scratchWeights needDevice weight s.index hit offload = .ok r)
      (fun e s' => CapacityInv needDevice weight s' ∧
        scratchWeights needDevice weight s.index hit offload = .error e) s := by
  unfold prefixHitCapacityWeights
  rw [wp_bind]
  refine wp_mono (prefixHitCapacityCounts_spec h seq hit) ?_
    fun e _ he => ⟨he.1, he.2 needDevice weight⟩
  rintro c s₁ ⟨hre, -⟩
  rw [wp_bind, wp_get]
  by_cases hz : hit.hitBlockCount = 0
  · obtain ⟨hlast, hnone⟩ := hunhit hz
    rw [hre.unhit hz, hnone]
    simp only [prefixHitChain, hlast, wp_bind, wp_lift]
    have hscratch : scratchWeights needDevice weight s.index hit offload = .ok (0, 0) := by
      rw [scratchWeights, if_pos hz]
    have hempty : ∀ F, chainWeights needDevice weight offload F s₁.index [] = .ok (0, 0) := by
      intro F
      cases offload <;> rfl
    refine wp_mono (weighChain_spec hre.inv needDevice weight) ?_ ?_
    · rintro r s' ⟨i, F, rfl, hq, -, hr⟩
      rw [hempty] at hr
      cases hr
      exact ⟨hre.inv.queried hq, hscratch⟩
    · rintro e s' ⟨i, F, -, -, -, he⟩
      rw [hempty] at he
      cases he
  · obtain ⟨lastBlockId, e, hlast, hget, hid, hl, hn, hr, hc, ho⟩ := hre.entry hz
    have hok := (hre.inv.entries seq e hget).2 hid
    have held : ChainHeld s.index lastBlockId hit.hitBlockCount e.chain :=
      hl ▸ hn ▸ (hok.chain hr).kept fun id o hget => ⟨o, hre.queried.blocks ▸ hget, .refl o⟩
    have hscratch : ∀ {F}, IsView offload s₁.index F →
        scratchWeights needDevice weight s.index hit offload =
          chainWeights needDevice weight offload F s₁.index e.chain := fun {F} hF =>
      (scratchWeights_held h.wf hz hlast held fun id => by
        rw [← hre.queried.blocks]
        exact hF id).trans (chainWeights_blocks hre.queried.blocks).symm
    obtain ⟨F, -, hF⟩ : ∃ F, scratchIds offload s₁.index = .ok F ∧ IsView offload s₁.index F :=
      scratchIds_spec hre.inv.wf
    simp only [hget]
    cases hw : e.weightedSlots with
    | some w => exact ⟨hre.inv, (hscratch hF).trans (ho ▸ (hok.right hr hc).weights w hw F (ho ▸ hF))⟩
    | none =>
      rw [wp_bind]
      refine wp_mono (weighChain_spec hre.inv needDevice weight) ?_ ?_
      · rintro w s' ⟨i, F, rfl, hq, hF, hweights⟩
        rw [wp_bind, wp_modify, wp_pure]
        have hinv := hre.inv.queried hq
        have hok' := (hinv.entries seq e hget).2 hid
        refine ⟨hinv.stored seq hid ⟨hok'.remove, hok'.capacity, hok'.chain, fun hr' hc' =>
          ⟨(hok'.right hr' hc').counts, fun w' hw' F' hF' => ?_⟩⟩, (hscratch hF).trans hweights⟩
        cases hw'
        have hFF : IsView offload s₁.index F' := fun id => by
          rw [← hq.blocks, ← ho]
          exact hF' id
        show chainWeights needDevice weight e.offloadEnabled F' i e.chain = .ok w
        rw [hFF.unique hF, ho, chainWeights_blocks hq.blocks]
        exact hweights
      · rintro err s' ⟨i, F, rfl, hq, hF, herr⟩
        exact ⟨hre.inv.queried hq, (hscratch hF).trans herr⟩

end

section

variable {s : HitCapacityState ι π} {needDevice : Bool} {weight : π → Except PyError Nat}

inductive CapacityOp (ι π : Type) where
  | index (op : Op ι π)
  | relocate (id : ι) (payload : π)
  | counts (seq : Nat) (hit : PrefixHit ι) (offload : Bool)
  | weights (seq : Nat) (hit : PrefixHit ι) (offload : Bool)
  | ownerDied (seq : Nat)
  | reset

/-- No insertion slips past the capacity epoch, a relocation keeps the weight, and the
weights of a sequence without a hit are not asked for while its last entry is stored. -/
def CapacityOp.Allowed (weight : π → Except PyError Nat) (s : HitCapacityState ι π) :
    CapacityOp ι π → Prop
  | .index op => SafeOp s.index op
  | .relocate id payload => ∀ b, s.index.blocks.get? id = some b → weight payload = weight b.payload
  | .weights seq hit _ => hit.hitBlockCount = 0 →
      hit.hitLastBlockId = none ∧ s.cache.get? seq = none
  | _ => True

/-- The state after `op`. -/
def CapacityOp.next (cfg : PrefixIndexConfig ι) (needDevice : Bool)
    (weight : π → Except PyError Nat) (s : HitCapacityState ι π) :
    CapacityOp ι π → HitCapacityState ι π
  | .index op => { s with index := op.next cfg s.index }
  | .relocate id payload => { s with index := ResidentWeightCache.writePayload id payload s.index }
  | .counts seq hit offload => (prefixHitCapacityCounts seq hit offload s).2
  | .weights seq hit offload => (prefixHitCapacityWeights needDevice weight seq hit offload s).2
  | .ownerDied seq => { s with cache := s.cache.erase seq }
  | .reset => { s with index := {}, indexId := s.indexId + 1 }

inductive CapacityReachable (cfg : PrefixIndexConfig ι) (needDevice : Bool)
    (weight : π → Except PyError Nat) : HitCapacityState ι π → Prop
  | init : CapacityReachable cfg needDevice weight {}
  | step {s : HitCapacityState ι π} (op : CapacityOp ι π) :
      CapacityReachable cfg needDevice weight s → op.Allowed weight s →
      CapacityReachable cfg needDevice weight (op.next cfg needDevice weight s)

theorem CapacityInv.next {cfg : PrefixIndexConfig ι} (h : CapacityInv needDevice weight s)
    {op : CapacityOp ι π} (hop : op.Allowed weight s) :
    CapacityInv needDevice weight (op.next cfg needDevice weight s) := by
  cases op with
  | index op =>
    have ho : Outcome s.index op (op.next cfg s.index) := run_outcome h.wf op
    have hidle : _ ∧ (_ → Idle weight s.index (op.next cfg s.index)) := next_idle h.wf hop
    exact h.mono (ho.wf h.wf) (fun v => ho.fresh h.wf (h.fresh v) fun _ => hop)
      (next_traced h.wf op).1 (next_kept h.wf) hidle.1 hidle.2
  | relocate id payload =>
    have hwf := ResidentWeightCache.wf_writePayload h.wf id payload
    simp only [CapacityOp.next, ResidentWeightCache.writePayload] at hwf ⊢
    split
    · exact h
    · next b hb =>
      simp only [hb] at hwf
      have hsame : SameIdentity b { b with payload := payload } := ⟨rfl, rfl, rfl, rfl, rfl⟩
      have hupd : Updated (fun o n => SameLocal o n ∧ weight n.payload = weight o.payload)
          s.index.blocks (s.index.blocks.set id { b with payload := payload }) :=
        .set hb hsame ⟨⟨.rfl, .rfl, rfl⟩, hop b hb⟩ fun _ => ⟨⟨.rfl, .rfl, rfl⟩, rfl⟩
      have hview := View.contains_updated (hupd.mono fun _ _ h => h.1)
      refine h.mono hwf (fun v => Fresh.of_contains (s := s.index) (by cases v <;> rfl) rfl
        (hview v) (h.fresh v)) le_rfl (fun _ x o ho => ?_) le_rfl fun _ => ⟨fun x o ho => ?_, hview⟩
      all_goals obtain ⟨n, hn, hid, hl, hw⟩ := hupd.get ho
      · exact ⟨n, hn, hid⟩
      · exact ⟨n, hn, hid, hl.residency, hw⟩
  | counts seq hit offload =>
    exact keeps_iff.mp (wp_mono (prefixHitCapacityCounts_spec h seq hit) (fun _ _ hs => hs.1.inv)
      fun _ _ he => he.1)
  | weights seq hit offload =>
    exact keeps_iff.mp (wp_mono (prefixHitCapacityWeights_spec h seq hit hop) (fun _ _ hs => hs.1)
      fun _ _ he => he.1)
  | ownerDied seq =>
    refine ⟨h.wf, h.fresh, fun seq' e he => h.entries seq' e ?_⟩
    rw [CapacityOp.next, Dict.get?_erase] at he
    split at he
    · cases he
    · exact he
  | reset =>
    refine ⟨wf_empty, fresh_empty, fun seq e he => ?_⟩
    have hle := (h.entries seq e he).1
    exact ⟨Nat.le_succ_of_le hle, fun hid => absurd (hid ▸ hle) (Nat.not_succ_le_self _)⟩

theorem CapacityReachable.inv {cfg : PrefixIndexConfig ι}
    (h : CapacityReachable cfg needDevice weight s) : CapacityInv needDevice weight s := by
  induction h with
  | init => exact ⟨wf_empty, fresh_empty, by simp⟩
  | step op _ hop ih => exact ih.next hop

/-- In every allowed interleaving, a call returns what the hit chain weighs from scratch: the
counts for every sequence, the weights for a sequence with a hit or without an entry. -/
theorem hit_capacity_correct {cfg : PrefixIndexConfig ι}
    (h : CapacityReachable cfg needDevice weight s) (seq : Nat) (hit : PrefixHit ι)
    (offload : Bool) :
    (prefixHitCapacityCounts seq hit offload s).1 = scratchWeights false one s.index hit offload ∧
    ((CapacityOp.weights (π := π) seq hit offload).Allowed weight s →
      (prefixHitCapacityWeights needDevice weight seq hit offload s).1 =
        scratchWeights needDevice weight s.index hit offload) := by
  have result : ∀ {m : PyM (HitCapacityState ι π) (Nat × Nat)} {Q : HitCapacityState ι π → Prop}
      {E : HitCapacityState ι π → Prop} {r : Except PyError (Nat × Nat)},
      wp m (fun c s' => Q s' ∧ r = .ok c) (fun e s' => E s' ∧ r = .error e) s → (m s).1 = r := by
    intro m Q E r hwp
    unfold wp at hwp
    split at hwp
    · next hm => rw [hm, hwp.2]
    · next hm => rw [hm, hwp.2]
  exact ⟨result (wp_mono (prefixHitCapacityCounts_spec h.inv seq hit) (fun _ _ hs => hs)
    fun _ _ he => ⟨he.1, he.2 _ _⟩), fun hop => result (prefixHitCapacityWeights_spec h.inv seq hit hop)⟩

def rootHit : PrefixHit Nat := ⟨1, 1, some 0⟩

/-- The states after `ops`. -/
def capacityRun (ops : List (CapacityOp Nat Unit)) : HitCapacityState Nat Unit :=
  ops.foldl (CapacityOp.next demoConfig false one) {}

theorem hit_capacity_correct_demo : (prefixHitCapacityCounts 0 rootHit false (capacityRun
    [.index (.insertBlock demoRoot), .counts 0 rootHit false])).1 = .ok (1, 0) := by
  have hsafe : SafeOp ({} : RadixPrefixIndex Nat Unit) (.insertBlock demoRoot) := by
    intro b hb _ hblocked
    cases hb
    exact absurd hblocked (by decide)
  have hreach : CapacityReachable demoConfig false one (capacityRun
      [.index (.insertBlock demoRoot), .counts 0 rootHit false]) :=
    .step (.counts 0 rootHit false) (.step (.index (.insertBlock demoRoot)) .init hsafe) trivial
  rw [(hit_capacity_correct hreach 0 rootHit false).1]
  decide +kernel

def childBelowTransfer : HitCapacityState Nat Unit :=
  capacityRun [.index (.insertBlock demoRoot), .index (.beginD2h demoRoot),
    .counts 0 rootHit true, .index (.insertBlock demoChild)]

def weighedHit : HitCapacityState Nat Unit :=
  capacityRun [.index (.insertBlock demoRoot), .weights 0 rootHit false]

/-- The stored count outlives the insertion. -/
theorem hit_capacity_stale :
    (prefixHitCapacityCounts 0 rootHit true childBelowTransfer).1 = .ok (1, 0) ∧
    scratchWeights false one childBelowTransfer.index rootHit true = .ok (0, 0) ∧
    (prefixHitCapacityWeights false one 0 {} false weighedHit).1 = .ok (1, 0) ∧
    scratchWeights false one weighedHit.index {} false = .ok (0, 0) := by
  decide +kernel

end

end HitCapacityState

end SparseEngine
