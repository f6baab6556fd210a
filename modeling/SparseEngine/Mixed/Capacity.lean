import SparseEngine.Mixed.Committing

/-! Every operation of the coordinator keeps the accounts, whatever it raises. -/

namespace SparseEngine.PrefixCacheCoordinator

open PyM RadixPrefixIndex List Finset Dict

variable {ι κ μ : Type} [LinearOrder ι]

section

variable {cfg : CoordinatorConfig ι κ μ} {c : PrefixCacheCoordinator ι κ μ}

theorem dropPendingBlock_spec {q : PendingMixedPrefixBlock ι κ}
    {rest : List (PendingMixedPrefixBlock ι κ)} {d : Dict Nat (List (PendingMixedPrefixBlock ι κ))}
    (ha : Accounts cfg (handOf (q :: rest)) { c with pendingBlocks := d }) :
    wp (dropPendingBlock q)
      (fun _ c' => Accounts cfg (handOf rest) { c' with pendingBlocks := d } ∧
        c'.pendingBlocks = c.pendingBlocks)
      (fun _ _ => False) c := by
  have hfreed : Accounts cfg { handOf (q :: rest) with snapshots := rest.map pendingSnapshot }
      (freePrefixRecurrentPayload q.payload.recurrentPayload { c with pendingBlocks := d }).2 :=
    freePrefixRecurrentPayload_spec (handOf (q :: rest)) ha
  obtain ⟨hmem, haccounts⟩ := Accounts.settled (handOf rest) hfreed
  have hbytes := haccounts.bytes
  simp only [dropPendingBlock, freePrefixRecurrentPayload, releasePendingReservation, wp_bind,
    wp_get, wp_raiseIf, wp_modify]
  refine ⟨fun hno => absurd hmem hno, fun _ => ⟨fun hneg => ?_, fun _ => ⟨haccounts, trivial⟩⟩⟩
  have hb : c.pendingRecurrentBytes - q.payload.recurrentBytes = _ := hbytes
  omega

theorem dropPendingBlocks_spec {d : Dict Nat (List (PendingMixedPrefixBlock ι κ))} :
    ∀ (ps : List (PendingMixedPrefixBlock ι κ)) (c : PrefixCacheCoordinator ι κ μ),
    Accounts cfg (handOf ps) { c with pendingBlocks := d } →
    wp (PyM.forEach dropPendingBlock ps)
      (fun _ c' => Balanced cfg { c' with pendingBlocks := d } ∧ c'.pendingBlocks = c.pendingBlocks)
      (fun _ _ => False) c
  | [], _, ha => ⟨ha, rfl⟩
  | q :: ps, c, ha => by
    rw [PyM.forEach, wp_bind]
    refine wp_mono (dropPendingBlock_spec ha) (fun _ c₁ h₁ => ?_) fun _ _ h => h
    exact wp_mono (dropPendingBlocks_spec ps c₁ h₁.1) (fun _ c₂ h₂ => ⟨h₂.1, h₂.2.trans h₁.2⟩)
      fun _ _ h => h

end

section

variable {cfg : CoordinatorConfig ι κ μ}

theorem evictForSlots_keeping (neededSlots : Nat) :
    Along (Keeping cfg) (evictForSlots cfg neededSlots) :=
  keeping_of_wp fun _ hb => wp_mono (evictForSlots_spec hb neededSlots) (fun _ _ h => h.1)
    fun _ _ h => h.1

theorem ensureHostCapacity_keeping (neededBlocks : Nat) :
    Along (Keeping cfg) (ensureHostCapacity cfg neededBlocks) := by
  have hevict : ∀ n : Int, Along (Keeping cfg) (evictHostBlocks cfg n) := fun n =>
    keeping_of_wp fun _ hb => wp_mono (evictHostBlocks_spec hb n 0) (fun _ _ h => h.1)
      fun _ _ h => h.1
  unfold ensureHostCapacity
  refine along_bind along_get fun c => ?_
  dsimp only
  split
  · exact along_pure _
  · exact along_bind (hevict _) fun _ => along_raiseIf _ _

theorem quiet_writeThroughCandidates (f : PrefixCacheCoordinator ι κ μ → Dict ι (MixedBlock ι κ)) :
    Along (@Quiet ι κ μ _) (PyM.modify fun c => { c with writeThroughCandidates := f c }) :=
  quiet_modify (fun _ => rfl) (fun _ => rfl) (fun _ => rfl) (fun _ => rfl) (fun _ => rfl)
    (fun _ => rfl) (fun _ => rfl) fun _ => rfl

theorem scheduleWriteThrough_keeping (released : List (MixedBlock ι κ)) :
    Along (Keeping cfg) (scheduleWriteThrough cfg released) := by
  unfold scheduleWriteThrough
  split
  · exact along_pure _
  · refine along_bind (Quiet.keeping tolerates_quiet.nextDeviceCall) fun _ => ?_
    refine along_bind (along_raiseIf _ _) fun _ => ?_
    refine along_bind (Quiet.keeping tolerates_quiet.pollOffload) fun _ => along_bind along_get fun c => ?_
    dsimp only
    refine along_bind (Quiet.keeping (quiet_writeThroughCandidates _)) fun _ => ?_
    split
    · exact along_pure _
    · refine along_bind (ensureHostCapacity_keeping _) fun _ => ?_
      exact along_bind (Quiet.keeping (tolerates_quiet.submitD2h _)) fun _ =>
        Quiet.keeping (quiet_writeThroughCandidates _)

theorem releaseSeq_keeping (seqId : Nat) : Along (Keeping cfg) (releaseSeq cfg seqId) := by
  refine keeping_of_wp fun c hb => ?_
  simp only [releaseSeq, wp_bind, wp_get, wp_modify]
  have hb₁ : Balanced cfg { c with
      seqIdToPrefixBlocks := c.seqIdToPrefixBlocks.erase seqId
      seqIdToMaterializedBlocks := c.seqIdToMaterializedBlocks.erase seqId } :=
    hb.undisturbed (undisturbed_rfl hb.wf rfl rfl rfl rfl rfl rfl rfl rfl)
  refine wp_mono (quiet_accounts (along_forEach fun b _ =>
    quiet_onIndex (releaseBlockRef_quiet b _)) hb₁) (fun _ c₂ h₂ => ?_) fun _ _ h => h
  have htaken := h₂.take seqId
  refine wp_mono (dropPendingBlocks_spec (d := c₂.pendingBlocks.erase seqId) _ _
    (htaken.undisturbed (undisturbed_rfl htaken.wf rfl rfl rfl rfl rfl rfl rfl rfl)))
    (fun _ c₃ h₃ => ?_) fun _ _ h => h.elim
  have hb₃ : Balanced cfg c₃ := by
    have hsame : c₃.pendingBlocks = c₂.pendingBlocks.erase seqId := h₃.2
    have hd := h₃.1
    rw [← hsame] at hd
    exact hd
  refine keeps_iff.mpr (scheduleWriteThrough_keeping _ _ ?_)
  exact hb₃.undisturbed (undisturbed_rfl hb₃.wf rfl rfl rfl rfl rfl rfl rfl rfl)

theorem promoteBlocks_keeping (hostOnly : List (MixedBlock ι κ)) :
    Along (Keeping cfg) (promoteBlocks cfg hostOnly) := by
  unfold promoteBlocks
  refine along_bind (Quiet.keeping tolerates_quiet.nextDeviceCall) fun _ => ?_
  refine along_bind (along_raiseIf _ _) fun _ => along_bind along_get fun c => ?_
  refine along_bind (evictForSlots_keeping _) fun _ => ?_
  refine along_bind (Quiet.keeping (quiet_onManagers _)) fun _ => ?_
  exact along_bind (Quiet.keeping (tolerates_quiet.allocateDeviceRecurrent _)) fun _ =>
    Quiet.keeping (submitH2d_quiet _)

theorem setLocals_keeping (f : AttachLocals → AttachLocals) :
    Along (fun s t => Keeping cfg s.1 t.1)
      (PyM.modify fun t : PrefixCacheCoordinator ι κ μ × AttachLocals => (t.1, f t.2)) :=
  fun _ hb => hb

theorem attachPayloads_keeping (seqId : Nat) (chain : List (MixedBlock ι κ)) :
    Along (fun s t => Keeping cfg s.1 t.1) (attachPayloads cfg seqId chain) := by
  unfold attachPayloads
  refine along_bind (along_outer (Quiet.keeping (quiet_onManagers _))) fun _ => ?_
  refine along_bind (setLocals_keeping fun l => { l with attached := true }) fun _ => ?_
  split
  · exact along_pure _
  · exact along_bind along_get fun t => along_outer (Quiet.keeping (quiet_onManagers _))

theorem attachChain_keeping (seqId : Nat) (chain hostOnly : List (MixedBlock ι κ)) :
    Along (fun s t => Keeping cfg s.1 t.1) (attachChain cfg seqId chain hostOnly) := by
  unfold attachChain
  dsimp only
  split
  · exact attachPayloads_keeping seqId chain
  · refine along_bind (along_outer (promoteBlocks_keeping hostOnly)) fun _ => ?_
    exact along_bind (setLocals_keeping fun l => { l with submitted := true }) fun _ =>
      attachPayloads_keeping seqId chain

theorem raiseRollback_keeping (e : PyError) (rollbackError : Option PyError) : Along (Keeping cfg)
    (match rollbackError with
      | some _ => PyM.raise (.runtimeError "Mixed prefix attach rollback failed")
      | none => PyM.raise e : CoordM ι κ μ Unit) := by
  split <;> exact along_raise _

theorem rollbackAttach_keeping (seqId : Nat) (chain hostOnly : List (MixedBlock ι κ))
    (rowPreexisted : Bool) (locals : AttachLocals) (e : PyError) :
    Along (Keeping cfg) (rollbackAttach cfg seqId chain hostOnly rowPreexisted locals e) := by
  have hundo : Along (Keeping cfg) (PyM.forEach (undoPromotion cfg) hostOnly) :=
    Quiet.keeping (along_forEach fun b _ => tolerates_quiet.undoPromotion b)
  have hrelease : Along (Keeping cfg)
      (PyM.forEach (fun b => onIndex (μ := μ) (releaseBlockRef b)) chain) :=
    Quiet.keeping (along_forEach fun b _ => quiet_onIndex (releaseBlockRef_quiet b _))
  unfold rollbackAttach
  dsimp only
  split
  · refine along_bind (along_attempt (Quiet.keeping (quiet_onManagers _))) fun rollbackError => ?_
    refine along_bind hrelease fun _ => ?_
    split
    · exact raiseRollback_keeping e rollbackError
    · exact along_bind hundo fun _ => raiseRollback_keeping e rollbackError
  · refine along_bind (along_pure _) fun rollbackError => along_bind hrelease fun _ => ?_
    split
    · exact raiseRollback_keeping e rollbackError
    · exact along_bind hundo fun _ => raiseRollback_keeping e rollbackError

theorem attachSeq_keeping (seq : MixedSequence ι) : Along (Keeping cfg) (attachSeq cfg seq) := by
  unfold attachSeq
  refine along_bind along_get fun c => ?_
  split
  · exact along_pure _
  · split
    · exact along_raise _
    · refine along_bind (along_raiseIf _ _) fun _ => along_bind (along_lift _) fun chain => ?_
      refine along_bind (along_raiseIf _ _) fun _ => along_bind (along_lift _) fun hostOnly => ?_
      refine along_bind (Quiet.keeping (quiet_onManagers _)) fun rowPreexisted => ?_
      refine along_bind (Quiet.keeping (along_forEach fun b _ =>
        quiet_onIndex (acquireBlockRef_quiet b))) fun _ => ?_
      refine along_bind (along_withLocals (along_tryExcept
        (attachChain_keeping seq.seqId chain hostOnly) fun e => along_bind along_get fun t =>
          along_outer (rollbackAttach_keeping seq.seqId chain hostOnly rowPreexisted t.2 e)))
        fun _ => ?_
      refine along_bind (Quiet.keeping (quiet_modify ?_ ?_ ?_ ?_ ?_ ?_ ?_ ?_)) fun _ =>
        Quiet.keeping (quiet_onIndex (touchChain_quiet chain))
      all_goals exact fun _ => rfl

theorem attachPrefixCacheHits_keeping (seqs : List (MixedSequence ι)) :
    Along (Keeping cfg) (attachPrefixCacheHits cfg seqs) :=
  along_bind (Quiet.keeping tolerates_quiet.pollOffload) fun _ => along_forEach fun seq _ =>
    attachSeq_keeping seq

theorem setEvictionPriority_keeping (tokenIds : List Int) (priority : Int) :
    Along (Keeping cfg)
      (onIndex (μ := μ) (setSubtreeEvictionPriority (π := MixedPrefixBlockPayload κ) cfg.index
        tokenIds priority)) :=
  Quiet.keeping (quiet_onIndex (setSubtreeEvictionPriority_quiet _ _ _))

end

section

variable {cfg : CoordinatorConfig ι κ μ} {c : PrefixCacheCoordinator ι κ μ}

omit [LinearOrder ι] in
theorem pendingMore_all (d : Dict Nat (List (PendingMixedPrefixBlock ι κ))) :
    PendingMore d.values.flatten .empty d := by
  refine ⟨fun f hnil happ => ?_⟩
  have hflatten : ∀ l : List (List (PendingMixedPrefixBlock ι κ)),
      (l.map f).sum = f l.flatten := by
    intro l
    induction l with
    | nil => exact hnil.symm
    | cons xs l ih => rw [List.map_cons, List.sum_cons, List.flatten_cons, happ, ih]
  rw [Dict.sumBy_empty, Nat.zero_add, ← hflatten, Dict.values, List.map_map]
  rfl

theorem balanced_afterReset (hbuilt : ∀ x ∈ c.liveSnapshots, x < c.nextSnapshotId)
    (hlive : c.releaseRaised = false → c.liveSnapshots = ∅) : Balanced cfg (afterReset cfg c) where
  wf := wf_empty
  blockLimit := fun m _ => Nat.zero_le m
  byteLimit := by
    show ((0 : Nat) : Int) + 0 ≤ cfg.maxRecurrentBytes
    omega
  ids := fun _ => rfl
  bytes := rfl
  apart := fun id hid => absurd hid (Finset.notMem_empty id)
  cache := fun _ hc => by cases hc
  single := fun _ => Nat.zero_le 1
  known := fun _ hx => absurd hx (lt_irrefl 0)
  built := hbuilt
  exact := fun hr x => by
    show 0 = if x ∈ c.liveSnapshots then 1 else 0
    rw [hlive hr, if_neg (Finset.notMem_empty x)]

theorem ownSnapshots_values (hwf : WellFormed c.prefixCache) :
    OwnSnapshots c.prefixCache.blocks.values c := by
  intro b hb d hd
  obtain ⟨id, hid⟩ := mem_values.mp hb
  rw [hwf.ids id b hid, hid] at hd
  cases hd
  rfl

theorem Accounts.live_indexed (hb : Balanced cfg { c with pendingBlocks := .empty })
    (hr : c.releaseRaised = false) {x : Nat} (hx : x ∈ c.liveSnapshots) :
    x ∈ c.prefixCache.blocks.values.map snapshot := by
  have hone := hb.exact hr x
  have hlive : x ∈ ({ c with pendingBlocks := .empty } :
    PrefixCacheCoordinator ι κ μ).liveSnapshots := hx
  rw [if_pos hlive] at hone
  by_contra hno
  have hzero : owners { c with pendingBlocks := .empty } x = 0 := by
    unfold owners
    dsimp only
    rw [Dict.sumBy_empty, Nat.add_zero]
    have hcongr : c.prefixCache.blocks.sumBy (fun _ b => if snapshot b = x then 1 else 0) =
        c.prefixCache.blocks.sumBy fun _ _ => 0 := by
      refine sumBy_congr fun id b hb => if_neg fun heq => hno ?_
      exact mem_map.mpr ⟨b, mem_values.mpr ⟨id, hb⟩, heq⟩
    rw [hcongr]
    simp [sumBy]
  rw [hzero] at hone
  cases hone

theorem Released.not_raised {c' : PrefixCacheCoordinator ι κ μ} {gone : Finset Nat}
    (h : Released gone c c') (hr : c'.releaseRaised = false) : c.releaseRaised = false := by
  cases hc : c.releaseRaised with
  | false => rfl
  | true => rw [h.raised hc] at hr; cases hr

omit [LinearOrder ι] in
theorem patched_live (bs : List (MixedBlock ι κ)) (c : PrefixCacheCoordinator ι κ μ) :
    (patched bs c).liveSnapshots = c.liveSnapshots ∧
      (patched bs c).nextSnapshotId = c.nextSnapshotId ∧
      (patched bs c).releaseRaised = c.releaseRaised := by
  unfold patched patchRecurrentBytes
  simp only [modify_run]
  split
  · exact ⟨rfl, rfl, rfl⟩
  · split <;> exact ⟨rfl, rfl, rfl⟩

theorem resetAfterWarmup_spec (hb : Balanced cfg c) :
    wp (resetAfterWarmup cfg) (fun _ => Balanced cfg) (fun _ _ => True) c := by
  have hsync : ∀ (c₁ : PrefixCacheCoordinator ι κ μ), WellFormed c₁.prefixCache →
      wp (synchronizeAll cfg) (fun _ c₂ => Undisturbed c₁ c₂) (fun _ _ => True) c₁ := by
    intro c₁ hwf
    exact wp_mono (keeps_iff.mpr (tolerates_quiet.synchronizeAll c₁ hwf)) (fun _ _ h => h) fun _ _ _ => trivial
  have hall : Accounts cfg (handOf c.pendingBlocks.values.flatten)
      { c with pendingBlocks := .empty } :=
    (accounts_pendingMore (pendingMore_all c.pendingBlocks)).mpr hb
  simp only [resetAfterWarmup, wp_bind, wp_get, wp_raiseIf]
  refine ⟨fun _ => trivial, fun _ => ?_⟩
  refine wp_mono (dropPendingBlocks_spec _ c hall) (fun _ c₁ h₁ => ?_) fun _ _ h => h.elim
  refine ⟨fun _ => trivial, fun _ => ?_⟩
  have hwf₁ : WellFormed c₁.prefixCache := h₁.1.wf
  have hfree : ∀ c₂, Undisturbed c₁ c₂ →
      wp (freeBlocks cfg c₁.prefixCache.blocks.values)
        (fun _ c₃ => WellFormed c₃.prefixCache ∧
          ∀ c₄, Undisturbed c₃ c₄ → Balanced cfg (afterReset cfg c₄))
        (fun _ _ => True) c₂ := by
    intro c₂ h₂
    have hown := (ownSnapshots_values hwf₁).released h₂
    refine wp_mono (freeBlocks_spec _ h₂.index.wf hown) (fun _ c₃ h₃ => ?_) fun _ _ _ => trivial
    refine ⟨h₃.index.wf, fun c₄ h₄ => ?_⟩
    obtain ⟨hlive, hnext, hraised⟩ := patched_live c₁.prefixCache.blocks.values c₂
    have hnow : c₄.liveSnapshots =
        c₁.liveSnapshots \ (c₁.prefixCache.blocks.values.map snapshot).toFinset := by
      rw [h₄.liveSnapshots, h₃.liveSnapshots, hlive, h₂.liveSnapshots, sdiff_empty,
        sdiff_empty]
    refine balanced_afterReset (fun x hx => ?_) fun hr => ?_
    · rw [hnow] at hx
      rw [h₄.nextSnapshotId, h₃.nextSnapshotId, hnext, h₂.nextSnapshotId]
      exact h₁.1.built x (mem_sdiff.mp hx).1
    · have hr₂ : c₂.releaseRaised = false := hraised ▸ h₃.not_raised (h₄.not_raised hr)
      rw [hnow, sdiff_eq_empty_iff_subset]
      intro x hx
      exact mem_toFinset.mpr (h₁.1.live_indexed (h₂.not_raised hr₂) hx)
  -- The two synchronisations are made with offload only.
  have hrefl₁ : Undisturbed c₁ c₁ := .refl hwf₁
  rw [wp_ite]
  split
  · rw [wp_bind]
    refine wp_mono (hsync c₁ hwf₁) (fun _ c₂ h₂ => ?_) fun _ _ h => h
    rw [wp_bind]
    refine wp_mono (hfree c₂ h₂) (fun _ c₃ h₃ => ?_) fun _ _ h => h
    rw [wp_bind]
    exact wp_mono (hsync c₃ h₃.1) (fun _ c₄ h₄ => h₃.2 c₄ h₄) fun _ _ h => h
  · rw [wp_bind]
    refine wp_mono (hfree c₁ hrefl₁) (fun _ c₃ h₃ => ?_) fun _ _ h => h
    exact h₃.2 c₃ (.refl h₃.1)

end

inductive CoordinatorOp (ι : Type) where
  | recordStepTokens (seqs : List (MixedSequence ι)) (isPrefill : Bool)
  | commitPendingBlocks (seqs : List (MixedSequence ι))
  | releaseSeq (seqId : Nat)
  | attachPrefixCacheHits (seqs : List (MixedSequence ι))
  | evictForSlots (neededSlots : Nat)
  | setEvictionPriority (tokenIds : List Int) (priority : Int)
  | pollOffload

def CoordinatorOp.run (cfg : CoordinatorConfig ι κ μ) : CoordinatorOp ι → CoordM ι κ μ Unit
  | recordStepTokens seqs isPrefill =>
    PrefixCacheCoordinator.recordStepTokens cfg seqs isPrefill
  | commitPendingBlocks seqs => PrefixCacheCoordinator.commitPendingBlocks cfg seqs
  | releaseSeq seqId => PrefixCacheCoordinator.releaseSeq cfg seqId
  | attachPrefixCacheHits seqs => PrefixCacheCoordinator.attachPrefixCacheHits cfg seqs
  | evictForSlots neededSlots => PrefixCacheCoordinator.evictForSlots cfg neededSlots
  | setEvictionPriority tokenIds priority => do
    let _ ← onIndex (setSubtreeEvictionPriority cfg.index tokenIds priority)
  | pollOffload => PrefixCacheCoordinator.pollOffload cfg

def initial (cfg : CoordinatorConfig ι κ μ) (managers : μ) : PrefixCacheCoordinator ι κ μ :=
  { managers := managers
    offload := { freeIndices := (List.range (cfg.hostCapacity.getD 0)).reverse } }

inductive Reachable (cfg : CoordinatorConfig ι κ μ) : PrefixCacheCoordinator ι κ μ → Prop
  | initial (managers : μ) : Reachable cfg (initial cfg managers)
  | step {c : PrefixCacheCoordinator ι κ μ} (op : CoordinatorOp ι) :
      Reachable cfg c → Reachable cfg (op.run cfg c).2
  | managers {c : PrefixCacheCoordinator ι κ μ} (managers : μ) :
      Reachable cfg c → Reachable cfg { c with managers := managers }
  | reset {c : PrefixCacheCoordinator ι κ μ} :
      Reachable cfg c → (resetAfterWarmup cfg c).1 = .ok () →
      Reachable cfg (resetAfterWarmup cfg c).2

section

variable {cfg : CoordinatorConfig ι κ μ} {c : PrefixCacheCoordinator ι κ μ}

theorem CoordinatorOp.run_keeping (op : CoordinatorOp ι) : Along (Keeping cfg) (op.run cfg) := by
  cases op with
  | recordStepTokens seqs isPrefill => exact recordStepTokens_keeping seqs isPrefill
  | commitPendingBlocks seqs => exact commitPendingBlocks_keeping seqs
  | releaseSeq seqId => exact releaseSeq_keeping seqId
  | attachPrefixCacheHits seqs => exact attachPrefixCacheHits_keeping seqs
  | evictForSlots neededSlots => exact evictForSlots_keeping neededSlots
  | setEvictionPriority tokenIds priority =>
    exact along_bind (setEvictionPriority_keeping tokenIds priority) fun _ => along_pure _
  | pollOffload => exact Quiet.keeping tolerates_quiet.pollOffload

theorem Reachable.balanced (h : Reachable cfg c) : Balanced cfg c := by
  induction h with
  | initial managers =>
    exact balanced_afterReset (c := ({ managers := managers } : PrefixCacheCoordinator ι κ μ))
      (fun x hx => absurd hx (Finset.notMem_empty x)) fun _ => rfl
  | step op _ ih => exact op.run_keeping _ ih
  | managers managers _ ih =>
    exact ih.undisturbed (undisturbed_rfl ih.wf rfl rfl rfl rfl rfl rfl rfl rfl)
  | @reset c _ hok ih =>
    have hspec := resetAfterWarmup_spec ih
    have hrun : resetAfterWarmup cfg c = (.ok (), (resetAfterWarmup cfg c).2) :=
      Prod.ext hok rfl
    exact (wp_of_ok hrun).mp hspec

def allPending (c : PrefixCacheCoordinator ι κ μ) : List (PendingMixedPrefixBlock ι κ) :=
  c.pendingBlocks.values.flatten

/-- The mixed prefix coordinator never exceeds its capacity. The reservations are those of the
pending blocks, one each. -/
theorem coordinator_capacity (h : Reachable cfg c) :
    (∀ m, cfg.index.maxBlocks = some m →
      c.prefixCache.blocks.size + c.pendingBlockIds.card ≤ m) ∧
    (liveRecurrentBytes c).1 = .ok (indexedBytes c : Int) ∧
    (indexedBytes c : Int) + c.pendingRecurrentBytes ≤ cfg.maxRecurrentBytes ∧
    c.pendingBlockIds = ((allPending c).map (·.stableBlockId)).toFinset ∧
    ((allPending c).map (·.stableBlockId)).Nodup ∧
    c.pendingRecurrentBytes = (((allPending c).map (·.payload.recurrentBytes)).sum : Nat) ∧
    (∀ x, owners c x ≤ 1) ∧
    (c.releaseRaised = false → ∀ x, owners c x = if x ∈ c.liveSnapshots then 1 else 0) ∧
    ∀ seqs, commitPendingBlocks cfg seqs c = commitPendingBlocks (unlimited cfg) seqs c := by
  have hb := h.balanced
  have hmore := pendingMore_all c.pendingBlocks
  have hcount : ∀ id, ((allPending c).map (·.stableBlockId)).count id =
      if id ∈ c.pendingBlockIds then 1 else 0 := by
    intro id
    have htotal := hmore.total (fun xs => (xs.map (·.stableBlockId)).count id) rfl
      (fun xs ys => by rw [map_append, count_append])
    rw [Dict.sumBy_empty, Nat.zero_add] at htotal
    exact htotal.symm.trans (hb.ids id)
  refine ⟨hb.blockLimit, ?_, hb.byteLimit, ?_, ?_, ?_, hb.single, hb.exact, fun seqs =>
    commitPendingBlocks_unlimited seqs hb⟩
  · have hlive := liveRecurrentBytes_spec hb
    cases hr : liveRecurrentBytes c with
    | mk r c' =>
      cases r with
      | ok total => exact congrArg _ ((wp_of_ok hr).mp hlive).1
      | error e => exact ((wp_of_error hr).mp hlive).elim
  · ext id
    rw [mem_toFinset, ← count_pos_iff, hcount id]
    split <;> simp_all
  · rw [nodup_iff_count_le_one]
    intro id
    rw [hcount id]
    split <;> omega
  · have htotal := hmore.total (fun xs => (xs.map fun p => p.payload.recurrentBytes).sum) rfl
      (fun xs ys => by rw [map_append, sum_append])
    rw [Dict.sumBy_empty, Nat.zero_add] at htotal
    have hbytes : c.pendingRecurrentBytes = (pendingBytes c : Nat) := hb.bytes
    rw [hbytes, pendingBytes, htotal]
    rfl

end

def demoManagers : MixedManagers Unit Unit where
  numFreeSlots := fun _ => 4
  deviceSlotCount := fun _ _ => some 2
  validatePrefixKvAttach := fun _ => pure false
  attachPrefixKvPayloads := fun _ _ => pure ()
  rollbackPrefixKvAttach := fun _ _ _ => pure ()
  buildPrefixKvPayload := fun _ _ _ => pure ()
  prefixKvPayloadNbytes := fun _ => pure 16
  markMaterializedPrefixKvPayload := fun _ _ => pure ()
  rollbackMaterializedPrefixKvPayload := fun _ _ => pure ()
  freePrefixKvPayload := fun _ => pure ()
  freePrefixKvPayloadDevice := fun _ => pure ()
  allocatePrefixKvPayloadsDevice := fun _ => pure ()
  buildPrefixRecurrentPayload := fun _ _ => pure 8
  attachPrefixRecurrentPayload := fun _ _ _ => pure ()

def demoCoordinatorConfig : CoordinatorConfig Nat Unit Unit where
  index :=
    { blockSize := 2
      maxBlocks := some 2
      hashBlock := fun tokens parent => tokens.foldl (fun h t => 31 * h + t.toNat) (parent.getD 7)
      blockSize_pos := Nat.two_pos
      maxBlocks_pos := twoBlocks_pos }
  managers := demoManagers
  maxRecurrentBytes := 16
  recurrentSnapshotNbytes := 8

def demoMixedSequence : MixedSequence Nat :=
  { seqId := 0, tokenIds := [1, 2, 3], numPromptTokens := 3, currentChunkSize := 2 }

def demoRecorded : PrefixCacheCoordinator Nat Unit Unit :=
  (CoordinatorOp.run demoCoordinatorConfig (.recordStepTokens [demoMixedSequence] true)
    (initial demoCoordinatorConfig ())).2

/-- One block is reserved, with its 8 bytes, and the commit of the step indexes it. -/
theorem coordinator_capacity_demo :
    demoRecorded.pendingBlockIds.card = 1 ∧ demoRecorded.pendingRecurrentBytes = 8 ∧
      demoRecorded.prefixCache.blocks.size + demoRecorded.pendingBlockIds.card ≤ 2 ∧
      (commitPendingBlocks demoCoordinatorConfig [demoMixedSequence] demoRecorded).1 = .ok () := by
  have hreach : Reachable demoCoordinatorConfig demoRecorded := .step _ (.initial ())
  exact ⟨by decide +kernel, by decide +kernel, (coordinator_capacity hreach).1 2 rfl,
    by decide +kernel⟩

end SparseEngine.PrefixCacheCoordinator
