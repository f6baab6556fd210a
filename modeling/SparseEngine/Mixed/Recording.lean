import SparseEngine.Mixed.Room

/-! `record_step_tokens` reserves a place and the snapshot bytes of every new block before it builds
the block. -/

namespace SparseEngine.PrefixCacheCoordinator

open PyM RadixPrefixIndex

variable {ι κ μ : Type} [LinearOrder ι]

def reservation (p : PendingMixedPrefixBlock ι κ) : ι × Nat :=
  (p.stableBlockId, p.payload.recurrentBytes)

def handOf (ps : List (PendingMixedPrefixBlock ι κ)) : InHand ι :=
  { snapshots := ps.map pendingSnapshot
    reservations := ps.map reservation }

section

variable {V : Type} {d : Dict Nat V} {f : V → Nat} {k : Nat} {e : V}

theorem sumBy_set_getD (hf : f e = 0) (v : V) :
    (d.set k v).sumBy (fun _ v => f v) + f ((d.get? k).getD e) = d.sumBy (fun _ v => f v) + f v := by
  cases hk : d.get? k with
  | none => rw [Dict.sumBy_set_new _ v hk, Option.getD_none, hf, Nat.add_zero]
  | some old => rw [Option.getD_some, Dict.sumBy_set_old (fun _ v => f v) v hk]

theorem sumBy_erase_getD (hf : f e = 0) :
    (d.erase k).sumBy (fun _ v => f v) + f ((d.get? k).getD e) = d.sumBy fun _ v => f v := by
  cases hk : d.get? k with
  | none =>
    rw [Option.getD_none, hf, Nat.add_zero]
    refine Dict.sumBy_congr_at fun a => ?_
    unfold Dict.weightAt
    rw [Dict.get?_erase]
    split
    · next ha => rw [ha, hk]
    · rfl
  | some old => rw [Option.getD_some, Dict.sumBy_erase (fun _ v => f v) hk]

end

/-- `xs` more pending blocks. -/
structure PendingMore (ps : List (PendingMixedPrefixBlock ι κ))
    (d d' : Dict Nat (List (PendingMixedPrefixBlock ι κ))) : Prop where
  total : ∀ f : List (PendingMixedPrefixBlock ι κ) → Nat, f [] = 0 →
    (∀ xs ys, f (xs ++ ys) = f xs + f ys) →
    d'.sumBy (fun _ xs => f xs) = d.sumBy (fun _ xs => f xs) + f ps

omit [LinearOrder ι] in
theorem pendingMore_append {d : Dict Nat (List (PendingMixedPrefixBlock ι κ))} (seqId : Nat)
    (ps : List (PendingMixedPrefixBlock ι κ)) :
    PendingMore ps d (d.set seqId ((d.get? seqId).getD [] ++ ps)) := by
  refine ⟨fun f hnil happ => ?_⟩
  have hset := sumBy_set_getD (d := d) (k := seqId) hnil ((d.get? seqId).getD [] ++ ps)
  rw [happ] at hset
  omega

omit [LinearOrder ι] in
theorem pendingMore_erase {d : Dict Nat (List (PendingMixedPrefixBlock ι κ))} (seqId : Nat) :
    PendingMore ((d.get? seqId).getD []) (d.erase seqId) d :=
  ⟨fun _ hnil _ => (sumBy_erase_getD hnil).symm⟩

section

variable {cfg : CoordinatorConfig ι κ μ} {c : PrefixCacheCoordinator ι κ μ}
  {d' : Dict Nat (List (PendingMixedPrefixBlock ι κ))}
  {ps : List (PendingMixedPrefixBlock ι κ)}

theorem PendingMore.pendingCount (h : PendingMore ps c.pendingBlocks d') (id : ι) :
    pendingCount { c with pendingBlocks := d' } id =
      pendingCount c id + ((ps.map reservation).map Prod.fst).count id := by
  have htotal := h.total (fun xs => (xs.map (·.stableBlockId)).count id) rfl
    (fun xs ys => by rw [List.map_append, List.count_append])
  rw [List.map_map]
  exact htotal

omit [LinearOrder ι] in
theorem PendingMore.pendingBytes (h : PendingMore ps c.pendingBlocks d') :
    pendingBytes { c with pendingBlocks := d' } =
      pendingBytes c + ((ps.map reservation).map Prod.snd).sum := by
  have htotal := h.total (fun xs => (xs.map fun p => p.payload.recurrentBytes).sum) rfl
    (fun xs ys => by rw [List.map_append, List.sum_append])
  rw [List.map_map]
  exact htotal

omit [LinearOrder ι] in
theorem PendingMore.owners (h : PendingMore ps c.pendingBlocks d') (x : Nat) :
    owners { c with pendingBlocks := d' } x = owners c x + (ps.map pendingSnapshot).count x := by
  have htotal := h.total (fun xs => (xs.map pendingSnapshot).count x) rfl
    (fun xs ys => by rw [List.map_append, List.count_append])
  unfold PrefixCacheCoordinator.owners
  dsimp only
  rw [htotal]
  omega

theorem accounts_pendingMore (h : PendingMore ps c.pendingBlocks d') :
    Accounts cfg (handOf ps) c ↔ Balanced cfg { c with pendingBlocks := d' } := by
  have hcount := h.pendingCount
  have hbytes := h.pendingBytes
  have howners := h.owners
  constructor
  · intro ha
    refine { ha with ids := ?_, bytes := ?_, cache := ha.cache, single := ?_, known := ?_, exact := ?_ }
    · intro id
      rw [hcount]
      exact ha.ids id
    · rw [hbytes]
      exact ha.bytes
    · intro x
      rw [howners]
      exact ha.single x
    · intro x hx
      rw [howners] at hx
      exact ha.known x hx
    · intro hr x
      rw [howners]
      exact ha.exact hr x
  · intro ha
    refine { ha with ids := ?_, bytes := ?_, cache := ha.cache, single := ?_, known := ?_, exact := ?_ }
    · intro id
      have hid := ha.ids id
      rw [hcount] at hid
      exact hid
    · have hb := ha.bytes
      rw [hbytes] at hb
      exact hb
    · intro x
      have hx := ha.single x
      rw [howners] at hx
      exact hx
    · intro x hx
      refine ha.known x ?_
      rw [howners]
      exact hx
    · intro hr x
      have hx := ha.exact hr x
      rw [howners] at hx
      exact hx

end

section

variable {cfg : CoordinatorConfig ι κ μ} {c : PrefixCacheCoordinator ι κ μ}

def reserve (id : ι) (n : Nat) (c : PrefixCacheCoordinator ι κ μ) : PrefixCacheCoordinator ι κ μ :=
  { c with
    pendingBlockIds := insert id c.pendingBlockIds
    pendingRecurrentBytes := c.pendingRecurrentBytes + n }

def unreserve (id : ι) (n : Nat) (c : PrefixCacheCoordinator ι κ μ) :
    PrefixCacheCoordinator ι κ μ :=
  { c with
    pendingBlockIds := c.pendingBlockIds.erase id
    pendingRecurrentBytes := c.pendingRecurrentBytes - n }

/-- The accounts hold once the reservation of `id` is released. -/
structure Settled (cfg : CoordinatorConfig ι κ μ) (id : ι) (n : Nat) (hand : InHand ι)
    (c : PrefixCacheCoordinator ι κ μ) : Prop where
  reserved : id ∈ c.pendingBlockIds
  accounts : Accounts cfg hand (unreserve id n c)

variable {id : ι} {n : Nat}

theorem Accounts.reserve (hb : Balanced cfg c) (hnew : id ∉ c.pendingBlockIds)
    (habsent : c.prefixCache.blocks.get? id = none) (hblocks : BlockRoom cfg 1 c)
    (hbytes : ByteRoom cfg n c) :
    Accounts cfg { reservations := [(id, n)] } (PrefixCacheCoordinator.reserve id n c) :=
  { hb with
    blockLimit := fun m hm => by
      have hroom := hblocks m hm
      show c.prefixCache.blocks.size + (insert id c.pendingBlockIds).card ≤ m
      rw [Finset.card_insert_of_notMem hnew]
      omega
    byteLimit := by
      show (indexedBytes c : Int) + (c.pendingRecurrentBytes + n) ≤ cfg.maxRecurrentBytes
      have : (indexedBytes c : Int) + c.pendingRecurrentBytes + n ≤ cfg.maxRecurrentBytes := hbytes
      omega
    ids := fun x => by
      have hx := hb.ids x
      have hid := hb.ids id
      rw [if_neg hnew] at hid
      show pendingCount c x + [id].count x = if x ∈ insert id c.pendingBlockIds then 1 else 0
      by_cases hxid : x = id
      · subst hxid
        have hzero : pendingCount c x = 0 := Nat.eq_zero_of_add_eq_zero_right hid
        rw [hzero]
        simp
      · rw [List.count_singleton, if_neg (by simpa using Ne.symm hxid)]
        simp only [Finset.mem_insert, hxid, false_or]
        exact hx
    bytes := by
      have hb' : c.pendingRecurrentBytes = ((pendingBytes c + 0 : Nat) : Int) := hb.bytes
      show c.pendingRecurrentBytes + n = ((pendingBytes c + (n + 0) : Nat) : Int)
      rw [hb']
      push_cast
      ring
    apart := fun x hx => by
      rcases Finset.mem_insert.mp hx with rfl | hx
      · exact habsent
      · exact hb.apart x hx
    cache := hb.cache }

theorem Accounts.settled (hand : InHand ι) {rs : List (ι × Nat)}
    (ha : Accounts cfg { hand with reservations := (id, n) :: rs } c) :
    Settled cfg id n { hand with reservations := rs } c := by
  have hid := ha.ids id
  have hmem : id ∈ c.pendingBlockIds := by
    by_contra hno
    rw [if_neg hno] at hid
    simp at hid
  rw [if_pos hmem] at hid
  have hbytes : c.pendingRecurrentBytes =
      ((pendingBytes c + (n + (rs.map Prod.snd).sum) : Nat) : Int) := ha.bytes
  refine ⟨hmem, { ha with
    blockLimit := ?_, byteLimit := ?_, ids := ?_, bytes := ?_, apart := ?_, cache := ha.cache }⟩
  · intro m hm
    have hlimit := ha.blockLimit m hm
    have hcard : (c.pendingBlockIds.erase id).card ≤ c.pendingBlockIds.card :=
      Finset.card_le_card (Finset.erase_subset _ _)
    show c.prefixCache.blocks.size + (c.pendingBlockIds.erase id).card ≤ m
    omega
  · have hlimit := ha.byteLimit
    show (indexedBytes c : Int) + (c.pendingRecurrentBytes - n) ≤ cfg.maxRecurrentBytes
    omega
  · intro x
    have hx := ha.ids x
    show pendingCount c x + (rs.map Prod.fst).count x =
      if x ∈ c.pendingBlockIds.erase id then 1 else 0
    simp only [List.map_cons, List.count_cons, beq_iff_eq] at hid hx
    by_cases hxid : x = id
    · subst hxid
      rw [if_neg (by simp)]
      simp only [if_true] at hid
      omega
    · rw [if_neg (Ne.symm hxid)] at hx
      simp only [Finset.mem_erase, hxid, ne_eq, not_false_eq_true, true_and]
      exact hx
  · show c.pendingRecurrentBytes - n = ((pendingBytes c + (rs.map Prod.snd).sum : Nat) : Int)
    rw [hbytes]
    push_cast
    ring
  · intro x hx
    exact ha.apart x (Finset.mem_of_mem_erase hx)

theorem releasePendingReservation_spec {hand : InHand ι} (h : Settled cfg id n hand c) :
    wp (releasePendingReservation id n) (fun _ c' => Accounts cfg hand c') (fun _ _ => False) c := by
  have hbytes := h.accounts.bytes
  simp only [releasePendingReservation, wp_bind, wp_get, wp_raiseIf, wp_modify]
  refine ⟨fun hno => absurd h.reserved hno, fun _ => ⟨fun hneg => ?_, fun _ => h.accounts⟩⟩
  have hb : c.pendingRecurrentBytes - n = _ := hbytes
  omega

theorem reservePendingBlock_spec (hb : Balanced cfg c) (n : Nat)
    (habsent : c.prefixCache.blocks.get? id = none) :
    wp (reservePendingBlock cfg id n)
      (fun reserved c' =>
        if reserved then Accounts cfg { reservations := [(id, n)] } c' else Balanced cfg c')
      (fun _ c' => Balanced cfg c') c := by
  simp only [reservePendingBlock, wp_bind, wp_get, wp_ite]
  split
  · exact hb
  · next hnew =>
    refine wp_mono (evictForInsert_spec hb 1 n) (fun room c₁ h₁ => ?_) fun _ _ h => h.1
    obtain ⟨⟨hb₁, gone, hs⟩, hroom⟩ := h₁
    split
    · next hr =>
      obtain ⟨hblocks, hbytes⟩ := hroom hr
      have hnew₁ : id ∉ c₁.pendingBlockIds := by rw [hs.pendingBlockIds]; exact hnew
      exact hb₁.reserve hnew₁ (hs.absent id habsent) hblocks hbytes
    · exact hb₁

end

section

variable {cfg : CoordinatorConfig ι κ μ} {c : PrefixCacheCoordinator ι κ μ} {hand : InHand ι}

theorem quiet_accounts {α : Type} {m : CoordM ι κ μ α} (hm : Along Quiet m)
    (ha : Accounts cfg hand c) :
    wp m (fun _ c' => Accounts cfg hand c') (fun _ c' => Accounts cfg hand c') c :=
  keeps_iff.mpr (ha.quiet hm)

variable (hand) in
theorem freePrefixRecurrentPayload_spec {payload : RecurrentPrefixPayload} {ss : List Nat}
    (ha : Accounts cfg { hand with snapshots := payload.objectId :: ss } c) :
    wp (freePrefixRecurrentPayload payload)
      (fun _ c' => Accounts cfg { hand with snapshots := ss } c') (fun _ _ => False) c := by
  have hsplit : Accounts cfg { hand with snapshots := [payload.objectId] ++ ss } c := ha
  have hgone : ([payload.objectId].toFinset : Finset Nat) = {payload.objectId} := by simp
  exact hsplit.released hand (hgone ▸ freePrefixRecurrentPayload_released payload ha.wf)

theorem buildPrefixRecurrentPayload_spec (ha : Accounts cfg hand c) (seqId tokenCount : Nat) :
    wp (buildPrefixRecurrentPayload cfg seqId tokenCount)
      (fun payload c' =>
        Accounts cfg { hand with snapshots := payload.objectId :: hand.snapshots } c')
      (fun _ c' => Accounts cfg hand c') c := by
  simp only [buildPrefixRecurrentPayload, wp_bind, wp_get, wp_modify]
  refine wp_mono (quiet_accounts (quiet_onManagers _) ha) (fun nbytes c₁ h₁ => ?_) fun _ _ h => h
  have hnone : owners c₁ c₁.nextSnapshotId + hand.snapshots.count c₁.nextSnapshotId = 0 := by
    by_contra hpos
    exact absurd (h₁.known _ (Nat.pos_of_ne_zero hpos)) (lt_irrefl _)
  have hcount : ∀ x, (c₁.nextSnapshotId :: hand.snapshots).count x =
      hand.snapshots.count x + if x = c₁.nextSnapshotId then 1 else 0 := by
    intro x
    rw [List.count_cons]
    simp only [beq_iff_eq, eq_comm (a := x)]
  refine { h₁ with cache := h₁.cache, single := ?_, known := ?_, built := ?_, exact := ?_ }
  · intro x
    have hx := h₁.single x
    show owners c₁ x + (c₁.nextSnapshotId :: hand.snapshots).count x ≤ 1
    rw [hcount]
    split
    · next heq => subst heq; omega
    · omega
  · intro x hx
    have hx' : 0 < owners c₁ x + (c₁.nextSnapshotId :: hand.snapshots).count x := hx
    rw [hcount] at hx'
    show x < c₁.nextSnapshotId + 1
    by_cases heq : x = c₁.nextSnapshotId
    · omega
    · rw [if_neg heq] at hx'
      exact Nat.lt_succ_of_lt (h₁.known x hx')
  · intro x hx
    show x < c₁.nextSnapshotId + 1
    rcases Finset.mem_insert.mp hx with rfl | hx
    · exact Nat.lt_succ_self _
    · exact Nat.lt_succ_of_lt (h₁.built x hx)
  · intro hr x
    have hx := h₁.exact hr x
    show owners c₁ x + (c₁.nextSnapshotId :: hand.snapshots).count x =
      if x ∈ insert c₁.nextSnapshotId c₁.liveSnapshots then 1 else 0
    rw [hcount]
    by_cases heq : x = c₁.nextSnapshotId
    · subst heq
      rw [if_pos rfl, if_pos (Finset.mem_insert_self _ _)]
      omega
    · rw [if_neg heq]
      simp only [Finset.mem_insert, heq, false_or]
      exact hx

theorem buildSnapshot_spec (ha : Accounts cfg hand c) (seqId blockEnd : Nat)
    {finish : RecurrentPrefixPayload → CoordM ι κ μ Unit}
    {Q : PrefixCacheCoordinator ι κ μ → Prop}
    (hfinish : ∀ payload c', payload.nbytes = cfg.recurrentSnapshotNbytes →
      Accounts cfg { hand with snapshots := payload.objectId :: hand.snapshots } c' →
      wp (finish payload) (fun _ => Q)
        (fun _ => Accounts cfg { hand with snapshots := payload.objectId :: hand.snapshots }) c') :
    wp (buildSnapshot cfg seqId blockEnd finish) (fun _ => Q) (fun _ => Accounts cfg hand) c := by
  unfold buildSnapshot
  rw [wp_bind]
  refine wp_mono (buildPrefixRecurrentPayload_spec ha seqId blockEnd) (fun payload c₁ h₁ => ?_)
    fun _ _ h => h
  -- The handler releases the snapshot, whichever statement raised.
  have hrelease : ∀ e c', Accounts cfg
      { hand with snapshots := payload.objectId :: hand.snapshots } c' →
      wp (do freePrefixRecurrentPayload payload; PyM.raise e) (fun (_ : Unit) => Q)
        (fun _ => Accounts cfg hand) c' := by
    intro e c' h
    rw [wp_bind]
    exact wp_mono (freePrefixRecurrentPayload_spec hand h) (fun _ _ h => h) fun _ _ h => h.elim
  rw [wp_tryExcept, wp_bind, wp_raiseIf]
  refine ⟨fun _ => hrelease _ _ h₁, fun hsize => ?_⟩
  exact wp_mono (hfinish payload c₁ (not_not.mp hsize) h₁) (fun _ _ h => h)
    fun e c' h => hrelease e c' h

theorem buildPendingBlock_spec {id : ι}
    (ha : Accounts cfg { reservations := [(id, cfg.recurrentSnapshotNbytes)] } c) (seqId : Nat)
    (state : MixedPrefixRuntimeState ι) (blockTokens : List Int) :
    wp (buildPendingBlock cfg seqId id state blockTokens) (fun _ => Balanced cfg)
      (fun _ => Accounts cfg { reservations := [(id, cfg.recurrentSnapshotNbytes)] }) c := by
  unfold buildPendingBlock
  rw [wp_bind]
  refine wp_mono (quiet_accounts (quiet_onManagers _) ha) (fun kvPayload c₁ h₁ => ?_)
    fun _ _ h => h
  refine buildSnapshot_spec h₁ seqId _ fun payload c₂ _ h₂ => ?_
  rw [wp_bind]
  refine wp_mono (quiet_accounts (quiet_onManagers _) h₂) (fun kvBytes c₃ h₃ => ?_) fun _ _ h => h
  rw [wp_modify]
  exact (accounts_pendingMore (pendingMore_append seqId [_])).mp h₃

def Keeping (cfg : CoordinatorConfig ι κ μ) (c c' : PrefixCacheCoordinator ι κ μ) : Prop :=
  Balanced cfg c → Balanced cfg c'

instance : Std.Refl (Keeping cfg) := ⟨fun _ h => h⟩

instance : IsTrans (PrefixCacheCoordinator ι κ μ) (Keeping cfg) := ⟨fun _ _ _ h h' hb => h' (h hb)⟩

theorem Quiet.keeping {α : Type} {m : CoordM ι κ μ α} (hm : Along Quiet m) :
    Along (Keeping cfg) m := fun _ hb => hb.quiet hm

theorem keeping_of_wp {α : Type} {m : CoordM ι κ μ α}
    (h : ∀ c, Balanced cfg c → wp m (fun _ => Balanced cfg) (fun _ => Balanced cfg) c) :
    Along (Keeping cfg) m := fun c hb => keeps_iff.mp (h c hb)

theorem undisturbed_rfl {c' : PrefixCacheCoordinator ι κ μ} (hwf : WellFormed c.prefixCache)
    (hindex : c'.prefixCache = c.prefixCache) (hblocks : c'.pendingBlocks = c.pendingBlocks)
    (hids : c'.pendingBlockIds = c.pendingBlockIds)
    (hbytes : c'.pendingRecurrentBytes = c.pendingRecurrentBytes)
    (hcache : c'.recurrentBytesCache = c.recurrentBytesCache)
    (hnext : c'.nextSnapshotId = c.nextSnapshotId) (hlive : c'.liveSnapshots = c.liveSnapshots)
    (hraised : c'.releaseRaised = c.releaseRaised) : Undisturbed c c' :=
  ⟨by rw [hindex]; exact .refl hwf, hblocks, hids, hbytes, hcache, hnext, by simp [hlive],
    fun h => by rw [hraised, h]⟩

theorem quiet_modify {f : PrefixCacheCoordinator ι κ μ → PrefixCacheCoordinator ι κ μ}
    (hindex : ∀ c, (f c).prefixCache = c.prefixCache)
    (hblocks : ∀ c, (f c).pendingBlocks = c.pendingBlocks)
    (hids : ∀ c, (f c).pendingBlockIds = c.pendingBlockIds)
    (hbytes : ∀ c, (f c).pendingRecurrentBytes = c.pendingRecurrentBytes)
    (hcache : ∀ c, (f c).recurrentBytesCache = c.recurrentBytesCache)
    (hnext : ∀ c, (f c).nextSnapshotId = c.nextSnapshotId)
    (hlive : ∀ c, (f c).liveSnapshots = c.liveSnapshots)
    (hraised : ∀ c, (f c).releaseRaised = c.releaseRaised) : Along Quiet (PyM.modify f) := by
  intro c hwf
  have hsame : SameAccounts c.prefixCache (f c).prefixCache := by
    rw [hindex]
    exact .refl hwf
  exact ⟨hsame, hblocks c, hids c, hbytes c, hcache c, hnext c, by simp [modify_run, hlive],
    fun h => (hraised c).trans h⟩

theorem setRuntimeState_quiet (seqId : Nat)
    (f : MixedPrefixRuntimeState ι → MixedPrefixRuntimeState ι) :
    Along (@Quiet ι κ μ _) (setRuntimeState seqId f) :=
  quiet_modify (fun _ => rfl) (fun _ => rfl) (fun _ => rfl) (fun _ => rfl) (fun _ => rfl)
    (fun _ => rfl) (fun _ => rfl) fun _ => rfl

theorem addNewBlock_keeping (seqId : Nat) {id : ι} (state : MixedPrefixRuntimeState ι)
    (blockTokens : List Int) (hb : Balanced cfg c) (habsent : c.prefixCache.blocks.get? id = none) :
    Balanced cfg (addNewBlock cfg seqId id state blockTokens c).2 := by
  refine keeps_iff.mp ?_
  show wp _ _ _ c
  unfold addNewBlock
  rw [wp_bind]
  refine wp_mono (reservePendingBlock_spec hb cfg.recurrentSnapshotNbytes habsent)
    (fun reserved c₁ h₁ => ?_) fun _ _ h => h
  rw [wp_ite]
  split
  · next hr =>
    rw [if_pos hr] at h₁
    rw [wp_bind, wp_tryExcept]
    refine wp_mono (buildPendingBlock_spec h₁ seqId state blockTokens) (fun _ c₂ h₂ => ?_)
      fun e c₂ h₂ => ?_
    · exact keeps_iff.mpr (h₂.quiet (setRuntimeState_quiet seqId _))
    · rw [wp_bind]
      have hsettled : Settled cfg id _ {} c₂ := h₂.settled {}
      exact wp_mono (releasePendingReservation_spec hsettled) (fun _ _ h => h) fun _ _ h => h.elim
  · next hr =>
    rw [if_neg hr] at h₁
    exact h₁.undisturbed (undisturbed_rfl h₁.wf rfl rfl rfl rfl rfl rfl rfl rfl)

end

section

variable {cfg : CoordinatorConfig ι κ μ}

theorem holdMaterializedRef_quiet (seqId : Nat) (b : MixedBlock ι κ) :
    Along (@Quiet ι κ μ _) (holdMaterializedRef seqId b) := by
  unfold holdMaterializedRef
  refine along_bind along_get fun c => ?_
  dsimp only
  split
  · exact along_pure _
  · refine along_bind (quiet_onIndex (acquireBlockRef_quiet b)) fun _ => ?_
    exact quiet_modify (fun _ => rfl) (fun _ => rfl) (fun _ => rfl) (fun _ => rfl) (fun _ => rfl)
      (fun _ => rfl) (fun _ => rfl) fun _ => rfl

theorem addBlock_keeping (seqId : Nat) (blockTokens : List Int) :
    Along (Keeping cfg) (addBlock cfg seqId blockTokens) := by
  unfold addBlock
  refine along_bind_get fun c hb => ?_
  dsimp only
  cases habsent : c.prefixCache.blocks.get?
      (cfg.index.hashBlock blockTokens (runtimeState c seqId).parentBlockId) with
  | some existing =>
    exact hb.quiet (along_bind (holdMaterializedRef_quiet seqId existing)
      fun _ => setRuntimeState_quiet seqId _)
  | none =>
    dsimp only
    split
    · refine hb.quiet (along_bind (quiet_modify ?_ ?_ ?_ ?_ ?_ ?_ ?_ ?_)
        fun _ => setRuntimeState_quiet seqId _) <;> exact fun _ => rfl
    · exact addNewBlock_keeping seqId _ blockTokens hb habsent

theorem recordFullBlocks_keeping (seqId : Nat) (tokenIds : List Int) :
    Along (Keeping cfg) (recordFullBlocks cfg seqId tokenIds) :=
  along_bind (along_forEach fun _ _ => addBlock_keeping seqId _) fun _ =>
    Quiet.keeping (setRuntimeState_quiet seqId _)

theorem initRuntimeState_keeping (seq : MixedSequence ι) :
    Along (Keeping cfg) (initRuntimeState (κ := κ) (μ := μ) seq) := by
  intro c hb
  have hnone : Accounts cfg (handOf ([] : List (PendingMixedPrefixBlock ι κ))) c := hb
  have hsame : PendingMore [] c.pendingBlocks (c.pendingBlocks.set seq.seqId
      ((c.pendingBlocks.get? seq.seqId).getD [])) := by
    have happ := pendingMore_append (d := c.pendingBlocks) seq.seqId []
    rw [List.append_nil] at happ
    exact happ
  have hset := (accounts_pendingMore hsame).mp hnone
  exact hset.undisturbed (undisturbed_rfl hset.wf rfl rfl rfl rfl rfl rfl rfl rfl)

theorem recordTokens_keeping (seq : MixedSequence ι) (tokenIds : List Int) :
    Along (Keeping cfg) (recordTokens cfg seq tokenIds) := by
  unfold recordTokens
  split
  · exact along_pure _
  · refine along_bind (initRuntimeState_keeping seq) fun _ => along_bind along_get fun c => ?_
    dsimp only
    split
    · exact recordFullBlocks_keeping _ _
    · refine along_bind (Quiet.keeping (setRuntimeState_quiet _ _)) fun _ => ?_
      split
      · refine along_bind (addBlock_keeping _ _) fun _ => ?_
        exact along_bind (Quiet.keeping (setRuntimeState_quiet _ _)) fun _ =>
          recordFullBlocks_keeping _ _
      · exact along_pure _

theorem recordSeqTokens_keeping (isPrefill : Bool) (seq : MixedSequence ι) :
    Along (Keeping cfg) (recordSeqTokens cfg isPrefill seq) := by
  unfold recordSeqTokens
  refine along_bind along_get fun c => ?_
  split
  · exact along_pure _
  · split
    · split
      · exact along_pure _
      · exact along_bind (along_raiseIf _ _) fun _ => recordTokens_keeping seq _
    · exact recordTokens_keeping seq _

theorem recordStepTokens_keeping (seqs : List (MixedSequence ι)) (isPrefill : Bool) :
    Along (Keeping cfg) (recordStepTokens cfg seqs isPrefill) :=
  along_forEach fun seq _ => recordSeqTokens_keeping isPrefill seq

end

end SparseEngine.PrefixCacheCoordinator
