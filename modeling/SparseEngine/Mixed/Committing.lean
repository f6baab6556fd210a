import SparseEngine.Mixed.Recording

/-! `commit_pending_blocks` takes the pending blocks of a sequence in hand and turns each one into
an indexed block. -/

namespace SparseEngine.PrefixCacheCoordinator

open PyM RadixPrefixIndex

variable {ι κ μ : Type} [LinearOrder ι]

section

variable {cfg : CoordinatorConfig ι κ μ} {c c' : PrefixCacheCoordinator ι κ μ} {id : ι} {n : Nat}
  {hand : InHand ι}

theorem Released.unreserve {gone : Finset Nat} (h : Released gone c c') :
    Released gone (unreserve id n c) (unreserve id n c') where
  __ := h
  pendingBlockIds := by
    show c'.pendingBlockIds.erase id = c.pendingBlockIds.erase id
    rw [h.pendingBlockIds]
  pendingRecurrentBytes := by
    show c'.pendingRecurrentBytes - n = c.pendingRecurrentBytes - n
    rw [h.pendingRecurrentBytes]

variable (hand) in
theorem Settled.released {gone kept : List Nat}
    (hs : Settled cfg id n { hand with snapshots := gone ++ kept } c)
    (h : Released gone.toFinset c c') : Settled cfg id n { hand with snapshots := kept } c' :=
  ⟨h.pendingBlockIds ▸ hs.reserved, hs.accounts.released hand h.unreserve⟩

theorem Settled.quiet {α : Type} {m : CoordM ι κ μ α} (hm : Along Quiet m)
    (hs : Settled cfg id n hand c) :
    wp m (fun _ => Settled cfg id n hand) (fun _ => Settled cfg id n hand) c := by
  refine keeps_iff.mpr ?_
  have hrel := hm c hs.accounts.wf
  exact ⟨hrel.pendingBlockIds ▸ hs.reserved, hs.accounts.undisturbed hrel.unreserve⟩

variable (hand) in
theorem Settled.free {payload : RecurrentPrefixPayload} {ss : List Nat}
    (hs : Settled cfg id n { hand with snapshots := payload.objectId :: ss } c) :
    wp (freePrefixRecurrentPayload payload)
      (fun _ => Settled cfg id n { hand with snapshots := ss }) (fun _ _ => False) c := by
  have hsplit : Settled cfg id n { hand with snapshots := [payload.objectId] ++ ss } c := hs
  have hgone : ([payload.objectId].toFinset : Finset Nat) = {payload.objectId} := by simp
  exact hsplit.released hand (hgone ▸ freePrefixRecurrentPayload_released payload hs.accounts.wf)

theorem unreserve_comm (id id' : ι) (n n' : Nat) (c : PrefixCacheCoordinator ι κ μ) :
    unreserve id n (unreserve id' n' c) = unreserve id' n' (unreserve id n c) := by
  unfold unreserve
  rw [Finset.erase_right_comm, sub_right_comm]

variable (hand) in
theorem Settled.release_other {id' : ι} {n' : Nat} {rs : List (ι × Nat)}
    (hs : Settled cfg id n { hand with reservations := (id', n') :: rs } c) :
    wp (releasePendingReservation id' n')
      (fun _ => Settled cfg id n { hand with reservations := rs }) (fun _ _ => False) c := by
  obtain ⟨hmem', haccounts⟩ := hs.accounts.settled hand
  obtain ⟨hne, hmem⟩ := Finset.mem_erase.mp hmem'
  have hbytes := haccounts.bytes
  simp only [releasePendingReservation, wp_bind, wp_get, wp_raiseIf, wp_modify]
  refine ⟨fun hno => absurd hmem hno, fun _ => ⟨fun hneg => ?_, fun _ => ⟨?_, ?_⟩⟩⟩
  · have hb : c.pendingRecurrentBytes - n - n' = _ := hbytes
    omega
  · exact Finset.mem_erase.mpr ⟨Ne.symm hne, hs.reserved⟩
  · have hcomm := unreserve_comm id id' n n' c
    exact hcomm ▸ haccounts

theorem Settled.drop {q : PendingMixedPrefixBlock ι κ} {rest : List (PendingMixedPrefixBlock ι κ)}
    (hs : Settled cfg id n (handOf (q :: rest)) c) :
    wp (dropPendingBlock q) (fun _ => Settled cfg id n (handOf rest)) (fun _ _ => False) c := by
  unfold dropPendingBlock
  rw [wp_bind]
  have hsnap : Settled cfg id n { handOf (q :: rest) with
      snapshots := q.payload.recurrentPayload.objectId :: rest.map pendingSnapshot } c := hs
  refine wp_mono (hsnap.free (handOf (q :: rest))) (fun _ c₁ h₁ => ?_) fun _ _ h => h
  exact Settled.release_other (handOf rest) h₁

theorem Settled.dropAll : ∀ (rest : List (PendingMixedPrefixBlock ι κ))
    (c : PrefixCacheCoordinator ι κ μ), Settled cfg id n (handOf rest) c →
    wp (PyM.forEach dropPendingBlock rest) (fun _ => Settled cfg id n {}) (fun _ _ => False) c
  | [], _, hs => hs
  | q :: rest, c, hs => by
    rw [PyM.forEach, wp_bind]
    exact wp_mono hs.drop (fun _ c₁ h₁ => Settled.dropAll rest c₁ h₁) fun _ _ h => h

end

section

variable {cfg : CoordinatorConfig ι κ μ} {c : PrefixCacheCoordinator ι κ μ}
  {p : PendingMixedPrefixBlock ι κ} {rest : List (PendingMixedPrefixBlock ι κ)}

theorem Accounts.not_full (ha : Accounts cfg (handOf (p :: rest)) c) :
    ¬ Full cfg.index c.prefixCache := by
  rintro ⟨m, hm, hfull⟩
  have hlimit := ha.blockLimit m hm
  have hset := Accounts.settled { snapshots := (p :: rest).map pendingSnapshot } ha
  have hpos : 0 < c.pendingBlockIds.card := Finset.card_pos.mpr ⟨_, hset.reserved⟩
  omega

theorem Accounts.inserted {b : MixedBlock ι κ}
    {s' : RadixPrefixIndex ι (MixedPrefixBlockPayload κ)}
    (ha : Accounts cfg (handOf (p :: rest)) c) (h : InsertStep c.prefixCache b s')
    (hid : b.stableBlockId = p.stableBlockId) (hpayload : b.payload = p.payload) :
    Settled cfg p.stableBlockId p.payload.recurrentBytes (handOf rest)
      { c with prefixCache := s' } := by
  have hset : Settled cfg p.stableBlockId p.payload.recurrentBytes
      { snapshots := (p :: rest).map pendingSnapshot, reservations := rest.map reservation } c :=
    Accounts.settled { snapshots := (p :: rest).map pendingSnapshot } ha
  have hnew := h.new
  have hsize : s'.blocks.size = c.prefixCache.blocks.size + 1 := by
    rw [h.blocks, Dict.size_set_new b hnew]
  have hbytes : s'.blocks.sumBy (fun _ b => b.payload.recurrentBytes) =
      indexedBytes c + p.payload.recurrentBytes := by
    rw [h.blocks, Dict.sumBy_set_new _ b hnew, hpayload]
    rfl
  have howners : ∀ x, owners { c with prefixCache := s' } x + (rest.map pendingSnapshot).count x =
      owners c x + ((p :: rest).map pendingSnapshot).count x := by
    intro x
    have hblocks := Dict.sumBy_set_new (fun _ b => if snapshot b = x then 1 else 0) b hnew
    unfold owners
    dsimp only
    rw [h.blocks, hblocks, List.map_cons, List.count_cons]
    simp only [beq_iff_eq, snapshot, hpayload, pendingSnapshot]
    omega
  have hcard : (c.pendingBlockIds.erase p.stableBlockId).card + 1 = c.pendingBlockIds.card :=
    Finset.card_erase_add_one hset.reserved
  refine ⟨hset.reserved, { hset.accounts with
    wf := h.wf, blockLimit := ?_, byteLimit := ?_, apart := ?_, cache := ?_, single := ?_,
    known := ?_, exact := ?_ }⟩
  · intro m hm
    have hlimit := ha.blockLimit m hm
    show s'.blocks.size + (c.pendingBlockIds.erase p.stableBlockId).card ≤ m
    omega
  · have hlimit := ha.byteLimit
    show ((s'.blocks.sumBy fun _ b => b.payload.recurrentBytes : Nat) : Int) +
      (c.pendingRecurrentBytes - p.payload.recurrentBytes) ≤ cfg.maxRecurrentBytes
    rw [hbytes]
    push_cast
    omega
  · intro x hx
    have hx' : x ∈ c.pendingBlockIds.erase p.stableBlockId := hx
    show s'.blocks.get? x = none
    rw [h.blocks, hid, Dict.get?_set_ne _ _ (Finset.mem_erase.mp hx').1]
    exact ha.apart x (Finset.mem_of_mem_erase hx')
  · intro cached hc
    obtain ⟨hi, hr, -⟩ := ha.cache cached hc
    have hinsert : s'.epochs.insert = c.prefixCache.epochs.insert + 1 := by
      rw [h.epochs]
      unfold IndexEpochs.markInserted
      dsimp only
      split <;> rfl
    have hremove : s'.epochs.remove = c.prefixCache.epochs.remove := by
      rw [h.epochs]
      unfold IndexEpochs.markInserted
      dsimp only
      split <;> rfl
    show cached.insertEpoch ≤ s'.epochs.insert ∧ cached.removeEpoch + 0 ≤ s'.epochs.remove ∧
      (cached.insertEpoch = s'.epochs.insert → _)
    rw [hinsert, hremove]
    exact ⟨by omega, hr, fun heq => by omega⟩
  · intro x
    have hx := ha.single x
    exact (howners x).symm ▸ hx
  · intro x hx
    refine ha.known x ?_
    have hx' : 0 < owners { c with prefixCache := s' } x + (rest.map pendingSnapshot).count x := hx
    rw [howners x] at hx'
    exact hx'
  · intro hr x
    exact (howners x).trans (ha.exact hr x)

theorem Settled.removed {id : ι} {n : Nat} {d : MixedBlock ι κ}
    {s₁ : RadixPrefixIndex ι (MixedPrefixBlockPayload κ)}
    (hs : Settled cfg id n (handOf rest) c) (hrem : Removable c.prefixCache d.stableBlockId d)
    (hstep : Step c.prefixCache s₁) (hblocks : s₁.blocks = c.prefixCache.blocks.erase d.stableBlockId)
    (k : Nat) :
    Settled cfg id n { handOf rest with snapshots := snapshot d :: rest.map pendingSnapshot }
      { c with prefixCache := { s₁ with committedBlocks := k } } := by
  have hremovals : Removals (unreserve id n c).prefixCache s₁ [d] := .snoc .nil hrem hstep hblocks
  have hmoved := hs.accounts.removals (handOf rest) hremovals hstep.wf
  have hforgot := hmoved.forget
  have hsame : Undisturbed (unreserve id n { c with prefixCache := s₁ })
      (unreserve id n { c with prefixCache := { s₁ with committedBlocks := k } }) :=
    ⟨⟨hstep.wf.committedBlocks k, fun _ => rfl, rfl, rfl⟩, rfl, rfl, rfl, rfl, rfl,
      Finset.sdiff_empty.symm, fun h => h⟩
  exact ⟨hs.reserved, Accounts.undisturbed hforgot hsame⟩

theorem Settled.quiet_own {α : Type} {m : CoordM ι κ μ α} (hm : Along Quiet m) {id : ι} {n : Nat}
    {hand : InHand ι} {bs : List (MixedBlock ι κ)} (hs : Settled cfg id n hand c)
    (hown : OwnSnapshots bs c) :
    wp m (fun _ c' => Settled cfg id n hand c' ∧ OwnSnapshots bs c')
      (fun _ c' => Settled cfg id n hand c' ∧ OwnSnapshots bs c') c := by
  have hboth : Keeps (fun c' => OwnSnapshots bs c') m c :=
    keeps_iff.mpr (hown.released (hm c hs.accounts.wf))
  exact wp_and (hs.quiet hm) hboth

variable (seqId : Nat)

theorem setMaterialized_quiet
    (f : Dict ι (MixedBlock ι κ) → Dict ι (MixedBlock ι κ)) :
    Along (@Quiet ι κ μ _) (setMaterialized seqId f) :=
  quiet_modify (fun _ => rfl) (fun _ => rfl) (fun _ => rfl) (fun _ => rfl) (fun _ => rfl)
    (fun _ => rfl) (fun _ => rfl) fun _ => rfl

theorem rollbackCommit_spec {inserted : MixedBlock ι κ}
    (hs : Settled cfg p.stableBlockId p.payload.recurrentBytes (handOf rest) c)
    (hown : OwnSnapshots [inserted] c) (hsnap : snapshot inserted = pendingSnapshot p) :
    wp (rollbackCommit cfg seqId p inserted)
      (fun _ => Settled cfg p.stableBlockId p.payload.recurrentBytes (handOf rest))
      (fun _ => Settled cfg p.stableBlockId p.payload.recurrentBytes (handOf rest)) c := by
  unfold rollbackCommit
  rw [wp_bind]
  refine wp_mono (hs.quiet_own (quiet_onManagers _) hown) (fun _ c₁ h₁ => ?_) fun _ _ h => h.1
  rw [wp_bind]
  refine wp_mono (h₁.1.quiet_own (setMaterialized_quiet _ _) h₁.2) (fun _ c₂ h₂ => ?_)
    fun _ _ h => h.1
  rw [wp_bind]
  refine wp_mono (h₂.1.quiet_own (quiet_onIndex (setBlockRefCount_quiet _ _ _)) h₂.2)
    (fun _ c₃ h₃ => ?_) fun _ _ h => h.1
  obtain ⟨hs₃, hown₃⟩ := h₃
  rw [wp_bind]
  unfold onIndex
  rw [wp_zoom]
  refine wp_mono (rollbackInsertedLeaf_removes hs₃.accounts.wf inserted) ?_ ?_
  · rintro - s' ⟨d, s₁, -, hrem, hstep, hblocks, rfl⟩
    have hid : d.stableBlockId = inserted.stableBlockId := hs₃.accounts.wf.ids _ d hrem.1
    have hd : snapshot d = p.payload.recurrentPayload.objectId :=
      (hown₃ inserted (by simp) d hrem.1).trans hsnap
    rw [← hid] at hrem hblocks
    have hremoved := hs₃.removed hrem hstep hblocks (s₁.committedBlocks - 1)
    rw [hd] at hremoved
    exact wp_mono (hremoved.free (handOf rest)) (fun _ _ h => h) fun _ _ h => h.elim
  · rintro e s' rfl
    exact hs₃

/-- The state when the insertion of `p` raised. -/
def CommitFailed (cfg : CoordinatorConfig ι κ μ) (p : PendingMixedPrefixBlock ι κ)
    (rest : List (PendingMixedPrefixBlock ι κ)) (locals : CommitLocals)
    (c : PrefixCacheCoordinator ι κ μ) : Prop :=
  if !locals.insertedNew && !locals.recurrentReleased then
    Accounts cfg (handOf (p :: rest)) c
  else Settled cfg p.stableBlockId p.payload.recurrentBytes (handOf rest) c

theorem insertPendingBlock_spec (ha : Accounts cfg (handOf (p :: rest)) c) :
    wp (insertPendingBlock cfg seqId p)
      (fun _ t => Settled cfg p.stableBlockId p.payload.recurrentBytes (handOf rest) t.1)
      (fun _ t => CommitFailed cfg p rest t.2 t.1) (c, {}) := by
  unfold insertPendingBlock
  simp only [wp_bind, wp_get, wp_raiseIf, wp_outer, wp_modify]
  refine ⟨fun _ => ha, fun habsent => ?_⟩
  have hnew : c.prefixCache.blocks.get? (newBlock c.nextObjectId p).stableBlockId = none :=
    Dict.contains_eq_false.mp (by simpa [newBlock] using habsent)
  have ha₁ : Accounts cfg (handOf (p :: rest)) { c with nextObjectId := c.nextObjectId + 1 } :=
    ha.undisturbed (undisturbed_rfl ha.wf rfl rfl rfl rfl rfl rfl rfl rfl)
  unfold onIndex
  rw [wp_zoom]
  refine wp_mono (insertBlock_new cfg.index ha.wf hnew rfl ha.not_full) ?_ ?_
  · rintro r s' ⟨k, rfl, hstep⟩
    refine ⟨fun hne => absurd rfl hne, fun _ => ?_⟩
    have hs : Settled cfg p.stableBlockId p.payload.recurrentBytes (handOf rest)
        { c with nextObjectId := c.nextObjectId + 1, prefixCache := s' } :=
      ha₁.inserted hstep rfl rfl
    have hown : OwnSnapshots [{ newBlock c.nextObjectId p with lastAccess := k }]
        { c with nextObjectId := c.nextObjectId + 1, prefixCache := s' } := by
      intro b hb d hd
      rw [List.mem_singleton] at hb
      subst hb
      have hget : s'.blocks.get? p.stableBlockId = some d := hd
      rw [hstep.blocks, Dict.get?_set] at hget
      simp only [newBlock, if_true, Option.some.injEq] at hget
      rw [← hget]
      rfl
    refine wp_mono (hs.quiet_own (setMaterialized_quiet _ _) hown) (fun _ c₂ h₂ => ?_)
      fun _ _ h => h.1
    rw [wp_tryExcept, wp_outer]
    refine wp_mono (h₂.1.quiet_own (quiet_onManagers _) h₂.2) (fun _ _ h => h.1) fun e c₃ h₃ => ?_
    rw [wp_bind, wp_outer]
    exact wp_mono (rollbackCommit_spec seqId h₃.1 h₃.2 rfl) (fun _ _ h => h) fun _ _ h => h
  · rintro e s' ⟨rfl, -⟩
    exact ha₁

theorem abandonCommit_spec {locals : CommitLocals}
    (h : CommitFailed cfg p rest locals c) :
    wp (abandonCommit seqId locals p rest)
      (fun _ => Settled cfg p.stableBlockId p.payload.recurrentBytes {}) (fun _ _ => False) c := by
  -- What is left to do once the snapshot of `p` is accounted for.
  have hdrop : ∀ c₁, Settled cfg p.stableBlockId p.payload.recurrentBytes (handOf rest) c₁ →
      wp (PyM.forEach dropPendingBlock rest) (fun _ c₂ =>
        Settled cfg p.stableBlockId p.payload.recurrentBytes {} { c₂ with
          pendingDuplicateRefs := c₂.pendingDuplicateRefs.erase seqId
          seqIdToMaterializedBlocks :=
            if ((c₂.seqIdToMaterializedBlocks.get? seqId).getD .empty).size = 0 then
              c₂.seqIdToMaterializedBlocks.erase seqId
            else c₂.seqIdToMaterializedBlocks }) (fun _ _ => False) c₁ := by
    intro c₁ h₁
    refine wp_mono (Settled.dropAll rest c₁ h₁) (fun _ c₂ h₂ => ?_) fun _ _ h => h
    exact ⟨h₂.reserved, h₂.accounts.undisturbed
      (undisturbed_rfl h₂.accounts.wf rfl rfl rfl rfl rfl rfl rfl rfl)⟩
  unfold CommitFailed at h
  simp only [abandonCommit, wp_ite, wp_bind, wp_modify]
  split
  · next hkept =>
    rw [if_pos hkept] at h
    have hs : Settled cfg p.stableBlockId p.payload.recurrentBytes
        { handOf rest with
          snapshots := p.payload.recurrentPayload.objectId :: rest.map pendingSnapshot } c :=
      Accounts.settled { snapshots := (p :: rest).map pendingSnapshot } h
    exact wp_mono (hs.free (handOf rest)) (fun _ c₁ h₁ => hdrop c₁ h₁) fun _ _ h => h
  · next hgone =>
    rw [if_neg hgone] at h
    exact hdrop c h

theorem commitPendingBlock_spec (ha : Accounts cfg (handOf (p :: rest)) c) :
    wp (commitPendingBlock cfg seqId p rest) (fun _ => Accounts cfg (handOf rest))
      (fun _ => Balanced cfg) c := by
  unfold commitPendingBlock
  rw [wp_tryFinally, wp_withLocals, wp_tryExcept]
  refine wp_mono (insertPendingBlock_spec seqId ha) (fun _ t h => ?_) fun e t h => ?_
  · exact wp_mono (releasePendingReservation_spec h) (fun _ _ h => h) fun _ _ h => h.elim
  · rw [wp_bind, wp_get, wp_bind, wp_outer]
    refine wp_mono (abandonCommit_spec seqId h) (fun _ c₁ h₁ => ?_) fun _ _ h => h.elim
    rw [wp_raise]
    exact wp_mono (releasePendingReservation_spec h₁) (fun _ _ h => h) fun _ _ h => h.elim

theorem commitLoop_spec (seqId : Nat) : ∀ (ps : List (PendingMixedPrefixBlock ι κ))
    (c : PrefixCacheCoordinator ι κ μ), Accounts cfg (handOf ps) c →
    wp (commitLoop cfg seqId ps) (fun _ => Balanced cfg) (fun _ => Balanced cfg) c
  | [], _, ha => ha
  | p :: ps, c, ha => by
    rw [commitLoop, wp_bind]
    exact wp_mono (commitPendingBlock_spec seqId ha) (fun _ c₁ h₁ => commitLoop_spec seqId ps c₁ h₁)
      fun _ _ h => h

theorem Accounts.take (hb : Balanced cfg c) (seqId : Nat) :
    Accounts cfg (handOf ((c.pendingBlocks.get? seqId).getD []))
      { c with pendingBlocks := c.pendingBlocks.erase seqId } :=
  (accounts_pendingMore (pendingMore_erase seqId)).mpr hb

theorem holdDuplicate_quiet (id : ι) :
    Along (@Quiet ι κ μ _) (holdDuplicate seqId id) := by
  unfold holdDuplicate
  refine along_bind along_get fun c => ?_
  split
  · exact along_raise _
  · exact holdMaterializedRef_quiet seqId _

theorem commitSeqBlocks_keeping : Along (Keeping cfg) (commitSeqBlocks cfg seqId) := by
  refine keeping_of_wp fun c hb => ?_
  simp only [commitSeqBlocks, setMaterialized, wp_bind, wp_get, wp_modify]
  have htaken := hb.take seqId
  refine wp_mono (commitLoop_spec seqId _ _ (htaken.undisturbed
    (undisturbed_rfl htaken.wf rfl rfl rfl rfl rfl rfl rfl rfl))) (fun _ c₂ h₂ => ?_) fun _ _ h => h
  have hb₂ : Balanced cfg { c₂ with
      pendingDuplicateRefs := c₂.pendingDuplicateRefs.erase seqId } :=
    h₂.undisturbed (undisturbed_rfl h₂.wf rfl rfl rfl rfl rfl rfl rfl rfl)
  exact quiet_accounts (along_forEach fun id _ => holdDuplicate_quiet seqId id) hb₂

theorem commitPendingBlocks_keeping (seqs : List (MixedSequence ι)) :
    Along (Keeping cfg) (commitPendingBlocks cfg seqs) :=
  along_forEach fun seq _ => commitSeqBlocks_keeping seq.seqId

end

section

variable {cfg : CoordinatorConfig ι κ μ} {c : PrefixCacheCoordinator ι κ μ}

def unlimited (cfg : CoordinatorConfig ι κ μ) : CoordinatorConfig ι κ μ :=
  { cfg with
    index :=
      { cfg.index with
        maxBlocks := none
        maxBlocks_pos := noLimit_pos } }

omit [LinearOrder ι] in
theorem not_full_unlimited (cfg : CoordinatorConfig ι κ μ)
    (s : RadixPrefixIndex ι (MixedPrefixBlockPayload κ)) :
    ¬ Full (unlimited cfg).index s := by
  rintro ⟨m, hm, -⟩
  cases hm

theorem insertPendingBlock_unlimited {p : PendingMixedPrefixBlock ι κ}
    {rest : List (PendingMixedPrefixBlock ι κ)} (seqId : Nat)
    (ha : Accounts cfg (handOf (p :: rest)) c) :
    insertPendingBlock cfg seqId p (c, {}) = insertPendingBlock (unlimited cfg) seqId p (c, {}) := by
  have hinsert := insertBlock_unlimited (newBlock c.nextObjectId p) ha.not_full
    (not_full_unlimited cfg c.prefixCache)
  unfold insertPendingBlock
  refine bind_congr_at rfl ?_
  rw [wp_get]
  refine bind_congr_at rfl ?_
  rw [wp_raiseIf]
  refine ⟨fun _ => trivial, fun _ => bind_congr_at rfl ?_⟩
  rw [wp_outer, wp_modify]
  -- The insertion is the only statement that reads the limit.
  have hrun : PyM.outer (τ := CommitLocals)
      (onIndex (μ := μ) (insertBlock cfg.index (newBlock c.nextObjectId p)))
        ({ c with nextObjectId := c.nextObjectId + 1 }, {}) =
      PyM.outer (onIndex (insertBlock (unlimited cfg).index (newBlock c.nextObjectId p)))
        ({ c with nextObjectId := c.nextObjectId + 1 }, {}) := by
    unfold outer onIndex zoom
    dsimp only
    rw [hinsert]
  refine bind_congr_at hrun ?_
  exact wp_mono (keeps_iff.mpr trivial) (fun _ _ (_ : True) => rfl) fun _ _ _ => trivial

theorem commitPendingBlock_unlimited {p : PendingMixedPrefixBlock ι κ}
    {rest : List (PendingMixedPrefixBlock ι κ)} (seqId : Nat)
    (ha : Accounts cfg (handOf (p :: rest)) c) :
    commitPendingBlock cfg seqId p rest c = commitPendingBlock (unlimited cfg) seqId p rest c := by
  unfold commitPendingBlock PyM.tryFinally PyM.withLocals PyM.tryExcept
  dsimp only
  rw [insertPendingBlock_unlimited seqId ha]

theorem commitLoop_unlimited (seqId : Nat) : ∀ (ps : List (PendingMixedPrefixBlock ι κ))
    (c : PrefixCacheCoordinator ι κ μ), Accounts cfg (handOf ps) c →
    commitLoop cfg seqId ps c = commitLoop (unlimited cfg) seqId ps c
  | [], _, _ => rfl
  | p :: ps, c, ha => by
    refine bind_congr_at (commitPendingBlock_unlimited seqId ha) ?_
    exact wp_mono (commitPendingBlock_spec seqId ha)
      (fun _ c₁ h₁ => commitLoop_unlimited seqId ps c₁ h₁) fun _ _ _ => trivial

theorem commitSeqBlocks_unlimited (seqId : Nat) (hb : Balanced cfg c) :
    commitSeqBlocks cfg seqId c = commitSeqBlocks (unlimited cfg) seqId c := by
  unfold commitSeqBlocks
  refine bind_congr_at rfl ?_
  rw [wp_get]
  refine bind_congr_at rfl ?_
  rw [wp_modify]
  refine bind_congr_at rfl ?_
  rw [setMaterialized, wp_modify]
  have htaken := hb.take seqId
  refine bind_congr_at (commitLoop_unlimited seqId _ _ (htaken.undisturbed
    (undisturbed_rfl htaken.wf rfl rfl rfl rfl rfl rfl rfl rfl))) ?_
  exact wp_mono (keeps_iff.mpr trivial) (fun _ _ (_ : True) => rfl) fun _ _ _ => trivial

theorem commitAll_unlimited : ∀ (seqs : List (MixedSequence ι))
    (c : PrefixCacheCoordinator ι κ μ), Balanced cfg c →
    PyM.forEach (fun seq => commitSeqBlocks cfg seq.seqId) seqs c =
      PyM.forEach (fun seq => commitSeqBlocks (unlimited cfg) seq.seqId) seqs c
  | [], _, _ => by rw [PyM.forEach, PyM.forEach]
  | seq :: seqs, c, hb => by
    rw [PyM.forEach, PyM.forEach]
    refine bind_congr_at (commitSeqBlocks_unlimited seq.seqId hb) ?_
    have hkeep : Keeps (Balanced cfg) (commitSeqBlocks cfg seq.seqId) c :=
      keeps_iff.mpr (commitSeqBlocks_keeping seq.seqId c hb)
    exact wp_mono hkeep (fun _ c₁ h₁ => commitAll_unlimited seqs c₁ h₁) fun _ _ _ => trivial

theorem commitPendingBlocks_unlimited (seqs : List (MixedSequence ι)) (hb : Balanced cfg c) :
    commitPendingBlocks cfg seqs c = commitPendingBlocks (unlimited cfg) seqs c := by
  unfold commitPendingBlocks
  exact commitAll_unlimited seqs c hb

end

end SparseEngine.PrefixCacheCoordinator
