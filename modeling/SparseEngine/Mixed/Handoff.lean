import SparseEngine.Mixed.Batches

/-! `commit_pending_blocks` inserts the block of an owner with the owner's reference. -/

namespace SparseEngine.PrefixCacheCoordinator

open PyM RadixPrefixIndex List Dict

variable {ι κ μ : Type} [LinearOrder ι]

/-- A sequence that did not hold `id` has one reference on it. -/
structure Gained (seqId : Nat) (id : ι) (c c' : PrefixCacheCoordinator ι κ μ) : Prop where
  holding : Holding c'
  kept : ∀ k q, Holds c k q → onDevice c (some q) = true → onDevice c' (some q) = true
  elsewhere : Elsewhere seqId c c'
  runtime : c'.runtimeStates = c.runtimeStates
  pending : c'.pendingBlocks = c.pendingBlocks
  duplicates : c'.pendingDuplicateRefs = c.pendingDuplicateRefs
  limited : c'.capacityLimitedSeqIds = c.capacityLimitedSeqIds
  mono : ∀ x, Holds c seqId x → Holds c' seqId x
  once : ((heldBlocks c' seqId).map (·.stableBlockId)).count id = 1
  refs : ∀ x, refs c' x = refs c x + if x = id then 1 else 0
  absent : ∀ x, x ≠ id → c.prefixCache.blocks.get? x = none → c'.prefixCache.blocks.get? x = none

section

variable {cfg : CoordinatorConfig ι κ μ} {c c' : PrefixCacheCoordinator ι κ μ} {seqId : Nat} {id : ι}

theorem not_holds_of_absent (h : Holding c) (habsent : c.prefixCache.blocks.get? id = none)
    (k : Nat) : ¬ Holds c k id := by
  intro hh
  obtain ⟨b, hb, -⟩ := hh.referenced h
  rw [habsent] at hb
  cases hb

theorem refs_of_absent (h : Holding c) (habsent : c.prefixCache.blocks.get? id = none) :
    refs c id = 0 := by
  have hattached : c.seqIdToPrefixBlocks.sumBy
      (fun _ bs => (bs.map (·.stableBlockId)).count id) = 0 := by
    rw [sumBy_congr (g := fun _ _ => 0) fun k bs hbs => count_eq_zero.mpr fun hmem => ?_]
    · simp [sumBy]
    · obtain ⟨b, hb, hid⟩ := mem_map.mp hmem
      exact not_holds_of_absent h habsent k ⟨b, mem_heldBlocks.mpr (.inl ⟨bs, hbs, hb⟩), hid⟩
  have hmaterialized : c.seqIdToMaterializedBlocks.sumBy
      (fun _ d => if d.contains id then 1 else 0) = 0 := by
    rw [sumBy_congr (g := fun _ _ => 0) fun k d hd => if_neg fun hcon => ?_]
    · simp [sumBy]
    · obtain ⟨b, hb⟩ := Dict.contains_iff.mp hcon
      exact not_holds_of_absent h habsent k
        ⟨b, mem_heldBlocks.mpr (.inr ⟨d, id, hd, hb⟩), (h.materialized k d hd id b hb).1⟩
  unfold refs
  rw [hattached, hmaterialized]

theorem Took.gained (h : Took seqId id c c') (hh : Holding c) (hno : ¬ Holds c seqId id) :
    Gained seqId id c c' where
  __ := h
  kept := fun k q hq hd => h.stays.onDevice hh hq hd
  once := h.once hno
  refs := fun x => by
    cases hx : c'.prefixCache.blocks.get? x with
    | some b' =>
      obtain ⟨b, hb, href⟩ := h.count hno x b' hx
      rw [h.holding.counts x b' hx, hh.counts x b hb] at href
      exact_mod_cast href
    | none =>
      have hzero : PrefixCacheCoordinator.refs c x = 0 := by
        cases hc : c.prefixCache.blocks.get? x with
        | none => exact refs_of_absent hh hc
        | some b =>
          by_contra hne
          have hpos : 0 < b.refCount := by
            rw [hh.counts x b hc]
            omega
          obtain ⟨b', hb', -⟩ := h.stays.kept x b hc hpos
          rw [hx] at hb'
          cases hb'
      have hne : x ≠ id := by
        rintro rfl
        exact not_holds_of_absent h.holding hx seqId h.holds
      rw [refs_of_absent h.holding hx, hzero, if_neg hne]
  absent := fun x _ hx => h.stays.absent x hx

theorem Gained.of_insert (seqId : Nat) {s' : RadixPrefixIndex ι (MixedPrefixBlockPayload κ)} {b : MixedBlock ι κ}
    (h : InsertStep c.prefixCache b s') (hh : Holding c) (href : b.refCount = 1) :
    Gained seqId b.stableBlockId c (materialize seqId b { c with prefixCache := s' }) := by
  have hfree := not_holds_of_absent hh h.new
  have hnew : (materializedOf c seqId).get? b.stableBlockId = none := by
    rw [← contains_eq_false, Bool.eq_false_iff]
    exact fun hcon => hfree seqId (hh.holds_iff.mpr (.inr hcon))
  have hget : ∀ x, x ≠ b.stableBlockId → s'.blocks.get? x = c.prefixCache.blocks.get? x :=
    fun x hx => by rw [h.blocks, Dict.get?_set_ne _ _ hx]
  have hself : s'.blocks.get? b.stableBlockId = some b := by
    rw [h.blocks, get?_set, if_pos rfl]
  have hindexed : ∀ k (a : MixedBlock ι κ), a ∈ heldBlocks c k → s'.isIndexed a = true := by
    intro k a ha
    obtain ⟨o, ho, hobj⟩ := isIndexed_iff.mp (hh.isIndexed ha)
    have hne : a.stableBlockId ≠ b.stableBlockId := fun heq => hfree k ⟨a, ha, heq⟩
    exact isIndexed_iff.mpr ⟨o, (hget _ hne).trans ho, hobj⟩
  have hholding : Holding (materialize seqId b { c with prefixCache := s' }) := by
    refine hh.materialize hnew h.wf (isIndexed_iff.mpr ⟨b, hself, rfl⟩) (fun x n hn => ?_) hindexed
    by_cases hx : x = b.stableBlockId
    · subst hx
      rw [hself] at hn
      cases hn
      rw [refs_of_absent hh h.new, if_pos rfl, href]
      rfl
    · rw [hget x hx] at hn
      rw [if_neg hx, hh.counts x n hn, add_zero]
  have hmat := materializedOf_materialize seqId b { c with prefixCache := s' }
  refine ⟨hholding, fun k q hq hd => ?_, ⟨rfl, fun k hk => ?_, fun _ _ => rfl, fun _ _ => rfl,
    fun _ _ => rfl, fun _ _ => .rfl⟩, rfl, rfl, rfl, rfl, fun x hx => ?_,
    count_heldBlocks hholding hmat rfl (hfree seqId), refs_materialize seqId { c with prefixCache := s' } hnew, fun x hx hnone => ?_⟩
  · have hne : q ≠ b.stableBlockId := fun heq => hfree k (heq ▸ hq)
    show (s'.blocks.get? q).any (·.residency.devicePresent) = true
    rw [hget q hne]
    exact hd
  · show (c.seqIdToMaterializedBlocks.set seqId _).get? k = _
    rw [Dict.get?_set_ne _ _ hk]
  · have hne : x ≠ b.stableBlockId := fun heq => hfree seqId (heq ▸ hx)
    refine hholding.holds_iff.mpr ((hh.holds_iff.mp hx).imp_right fun hcon => ?_)
    obtain ⟨a, ha⟩ := Dict.contains_iff.mp hcon
    rw [hmat, Dict.contains_iff]
    exact ⟨a, by rw [Dict.get?_set_ne _ _ hne]; exact ha⟩
  · exact (hget x hx).trans hnone

theorem Gained.congr {c'' : PrefixCacheCoordinator ι κ μ} (h : Gained seqId id c c')
    (hindex : c''.prefixCache = c'.prefixCache)
    (hattached : c''.seqIdToPrefixBlocks = c'.seqIdToPrefixBlocks)
    (hmaterialized : c''.seqIdToMaterializedBlocks = c'.seqIdToMaterializedBlocks)
    (hruntime : c''.runtimeStates = c'.runtimeStates)
    (hpending : c''.pendingBlocks = c'.pendingBlocks)
    (hduplicates : c''.pendingDuplicateRefs = c'.pendingDuplicateRefs)
    (hlimited : c''.capacityLimitedSeqIds = c'.capacityLimitedSeqIds) :
    Gained seqId id c c'' := by
  have hheld : ∀ k, heldBlocks c'' k = heldBlocks c' k := fun k => by
    unfold heldBlocks
    rw [hattached, hmaterialized]
  refine ⟨h.holding.of_same hindex hattached hmaterialized, fun k q hq hd => ?_, ⟨?_, fun k hk => ?_,
    fun k hk => ?_, fun k hk => ?_, fun k hk => ?_, fun k hk => ?_⟩, hruntime.trans h.runtime,
    hpending.trans h.pending, hduplicates.trans h.duplicates, hlimited.trans h.limited,
    fun x hx => ?_, ?_, fun x => ?_, fun x hx hnone => ?_⟩
  · show (c''.prefixCache.blocks.get? q).any (·.residency.devicePresent) = true
    rw [hindex]
    exact h.kept k q hq hd
  · exact hattached.trans h.elsewhere.prefixBlocks
  · exact hmaterialized ▸ h.elsewhere.materialized k hk
  · exact hruntime ▸ h.elsewhere.runtime k hk
  · exact hpending ▸ h.elsewhere.pending k hk
  · exact hduplicates ▸ h.elsewhere.duplicates k hk
  · exact hlimited ▸ h.elsewhere.limited k hk
  · unfold Holds
    rw [hheld]
    exact h.mono x hx
  · rw [hheld]
    exact h.once
  · have hrefs : PrefixCacheCoordinator.refs c'' x = PrefixCacheCoordinator.refs c' x := by
      unfold PrefixCacheCoordinator.refs
      rw [hattached, hmaterialized]
    exact hrefs.trans (h.refs x)
  · rw [hindex]
    exact h.absent x hx hnone

theorem insert_markInserted (e : IndexEpochs) (changed : Bool) :
    (e.markInserted changed).insert = e.insert + 1 := by
  unfold IndexEpochs.markInserted
  cases changed <;> rfl

/-- `mark_materialized_prefix_kv_payload` returns for the block that the step completed. -/
def Marks (cfg : CoordinatorConfig ι κ μ) (seqId : Nat) (p : PendingMixedPrefixBlock ι κ)
    (c : PrefixCacheCoordinator ι κ μ) : Prop :=
  (cfg.managers.markMaterializedPrefixKvPayload seqId p.payload.kvPayload c.managers).1 = .ok ()

theorem insertPendingBlock_gained {p : PendingMixedPrefixBlock ι κ}
    {rest : List (PendingMixedPrefixBlock ι κ)} (hh : Holding c)
    (ha : Accounts cfg (handOf (p :: rest)) c)
    (hparent : ∀ q, p.parentBlockId = some q → onDevice c (some q) = true) :
    wp (insertPendingBlock cfg seqId p)
      (fun _ t => Gained seqId p.stableBlockId c t.1 ∧
        t.1.prefixCache.epochs.insert = c.prefixCache.epochs.insert + 1)
      (fun _ _ => ¬ Marks cfg seqId p c) (c, {}) := by
  have hset := Accounts.settled { snapshots := (p :: rest).map pendingSnapshot } ha
  have habsent := ha.apart _ hset.reserved
  unfold insertPendingBlock
  simp only [wp_bind, wp_get, wp_raiseIf, wp_outer, wp_modify]
  refine ⟨fun hcon => ?_, fun _ => ?_⟩
  · rw [contains_eq_false.mpr habsent] at hcon
    cases hcon
  · unfold onIndex
    rw [wp_zoom]
    have hadm : Admissible c.prefixCache.blocks (newBlock c.nextObjectId p) := by
      refine ⟨rfl, fun q hq => ?_⟩
      have hd : (c.prefixCache.blocks.get? q).any (·.residency.devicePresent) = true :=
        hparent q hq
      cases hget : c.prefixCache.blocks.get? q with
      | none =>
        rw [hget] at hd
        cases hd
      | some pb =>
        rw [hget, Option.any_some] at hd
        exact ⟨pb, rfl, fun _ => hd, fun hhost => absurd hhost Bool.false_ne_true⟩
    refine wp_mono (insertBlock_new cfg.index ha.wf habsent rfl ha.not_full) ?_ ?_
    · rintro r s' ⟨k, rfl, hstep⟩
      refine ⟨fun hne => absurd rfl hne, fun _ => ?_⟩
      have hgain := Gained.of_insert seqId hstep hh rfl
      unfold setMaterialized onManagers
      rw [wp_modify, wp_tryExcept, wp_outer, wp_zoom]
      cases hrun : cfg.managers.markMaterializedPrefixKvPayload seqId p.payload.kvPayload
          c.managers with
      | mk r m =>
        cases r with
        | ok u =>
          refine (wp_of_ok hrun).mpr ⟨hgain.congr rfl rfl rfl rfl rfl rfl rfl, ?_⟩
          show s'.epochs.insert = _
          rw [hstep.epochs, insert_markInserted]
        | error e =>
          -- The handler rolls the insertion back and raises again.
          have hraised : ¬ Marks cfg seqId p c := fun h => by
            unfold Marks at h
            rw [hrun] at h
            cases h
          refine (wp_of_error hrun).mpr ?_
          simp only [wp_bind, wp_outer, wp_modify, wp_raise]
          exact wp_const hraised
    · rintro e s' ⟨-, hno⟩
      exact (hno hadm).elim

theorem commitPendingBlock_gained {p : PendingMixedPrefixBlock ι κ}
    {rest : List (PendingMixedPrefixBlock ι κ)} (hh : Holding c)
    (ha : Accounts cfg (handOf (p :: rest)) c)
    (hparent : ∀ q, p.parentBlockId = some q → onDevice c (some q) = true) :
    wp (commitPendingBlock cfg seqId p rest)
      (fun _ c' => Gained seqId p.stableBlockId c c' ∧
        c'.prefixCache.epochs.insert = c.prefixCache.epochs.insert + 1)
      (fun _ _ => ¬ Marks cfg seqId p c) c := by
  unfold commitPendingBlock
  rw [wp_tryFinally, wp_withLocals, wp_tryExcept]
  refine wp_mono (wp_and (insertPendingBlock_spec seqId ha)
    (insertPendingBlock_gained hh ha hparent)) (fun _ t ht => ?_) fun _ _ ht => ?_
  rotate_left
  · simp only [wp_bind, wp_get, wp_outer, wp_raise]
    exact wp_mono (wp_const ht.2) (fun _ _ h => wp_const h) fun _ _ h => wp_const h
  obtain ⟨hset, hgain, hinsert⟩ := ht
  have hunreserve : wp (releasePendingReservation p.stableBlockId p.payload.recurrentBytes)
      (fun _ c' => c' = unreserve p.stableBlockId p.payload.recurrentBytes t.1)
      (fun _ _ => True) t.1 := by
    simp only [releasePendingReservation, wp_bind, wp_get, wp_raiseIf, wp_modify]
    exact ⟨fun _ => trivial, fun _ => ⟨fun _ => trivial, fun _ => rfl⟩⟩
  refine wp_mono (wp_and (releasePendingReservation_spec hset) hunreserve) (fun _ c' h' => ?_)
    fun _ _ h' => h'.1.elim
  obtain ⟨-, rfl⟩ := h'
  exact ⟨hgain.congr rfl rfl rfl rfl rfl rfl rfl, hinsert⟩

end

/-- A sequence that holds `ids` besides what it held, once each. -/
structure Hands (seqId : Nat) (ids : List ι) (c c' : PrefixCacheCoordinator ι κ μ) : Prop where
  holding : Holding c'
  kept : ∀ k q, Holds c k q → onDevice c (some q) = true → onDevice c' (some q) = true
  elsewhere : Elsewhere seqId c c'
  runtime : c'.runtimeStates = c.runtimeStates
  limited : c'.capacityLimitedSeqIds = c.capacityLimitedSeqIds
  mono : ∀ x, Holds c seqId x → Holds c' seqId x
  once : ∀ id ∈ ids, ((heldBlocks c' seqId).map (·.stableBlockId)).count id = 1
  refs : ∀ x, refs c' x = refs c x + ids.count x
  absent : ∀ x, x ∉ ids → c.prefixCache.blocks.get? x = none → c'.prefixCache.blocks.get? x = none

structure Silent (seqId : Nat) (c c' : PrefixCacheCoordinator ι κ μ) : Prop where
  index : c'.prefixCache = c.prefixCache
  held : ∀ k, heldBlocks c' k = heldBlocks c k
  refs : ∀ x, refs c' x = refs c x
  holding : Holding c → Holding c'
  elsewhere : Elsewhere seqId c c'
  runtime : c'.runtimeStates = c.runtimeStates
  limited : c'.capacityLimitedSeqIds = c.capacityLimitedSeqIds

section

variable {cfg : CoordinatorConfig ι κ μ} {c c' c'' : PrefixCacheCoordinator ι κ μ} {seqId : Nat}
  {id : ι} {ids : List ι}

theorem Silent.onDevice (h : Silent seqId c c') (q : ι) :
    onDevice c' (some q) = onDevice c (some q) := by
  show (c'.prefixCache.blocks.get? q).any _ = (c.prefixCache.blocks.get? q).any _
  rw [h.index]

theorem Silent.holds (h : Silent seqId c c') (k : Nat) (x : ι) : Holds c' k x ↔ Holds c k x := by
  unfold Holds
  rw [h.held]

theorem Silent.hands (h : Silent seqId c c') (hh : Holding c) : Hands seqId [] c c' where
  __ := h
  holding := h.holding hh
  kept := fun _ q _ hd => (h.onDevice q).trans hd
  mono := fun x hx => (h.holds seqId x).mpr hx
  once := fun _ hid => absurd hid not_mem_nil
  refs := fun x => h.refs x
  absent := fun _ _ hx => h.index ▸ hx

theorem Gained.hands (h : Gained seqId id c c') : Hands seqId [id] c c' where
  __ := h
  once := fun x hx => mem_singleton.mp hx ▸ h.once
  refs := fun x => by
    rw [h.refs x, count_singleton]
    by_cases hx : x = id
    · rw [if_pos hx, hx, beq_self_eq_true, if_pos rfl]
    · rw [if_neg hx, if_neg (fun heq => hx (beq_iff_eq.mp heq).symm)]
  absent := fun x hx => h.absent x fun heq => hx (heq ▸ mem_singleton_self id)

theorem Hands.after (h : Silent seqId c c') (h' : Hands seqId ids c' c'') :
    Hands seqId ids c c'' where
  __ := h'
  kept := fun k q hq hd => h'.kept k q ((h.holds k q).mpr hq) ((h.onDevice q).trans hd)
  elsewhere := h.elsewhere.trans h'.elsewhere
  runtime := h'.runtime.trans h.runtime
  limited := h'.limited.trans h.limited
  mono := fun x hx => h'.mono x ((h.holds seqId x).mpr hx)
  refs := fun x => by rw [h'.refs x, h.refs x]
  absent := fun x hx hnone => h'.absent x hx (h.index ▸ hnone)

theorem Hands.before (h : Hands seqId ids c c') (h' : Silent seqId c' c'') :
    Hands seqId ids c c'' where
  holding := h'.holding h.holding
  kept := fun k q hq hd => (h'.onDevice q).trans (h.kept k q hq hd)
  elsewhere := h.elsewhere.trans h'.elsewhere
  runtime := h'.runtime.trans h.runtime
  limited := h'.limited.trans h.limited
  mono := fun x hx => (h'.holds seqId x).mpr (h.mono x hx)
  once := fun id hid => by rw [h'.held]; exact h.once id hid
  refs := fun x => by rw [h'.refs x, h.refs x]
  absent := fun x hx hnone => h'.index ▸ h.absent x hx hnone

/-- A sequence takes its pending blocks. -/
def takePending (seqId : Nat) (c : PrefixCacheCoordinator ι κ μ) : PrefixCacheCoordinator ι κ μ :=
  { c with
    pendingBlocks := c.pendingBlocks.erase seqId
    seqIdToMaterializedBlocks := c.seqIdToMaterializedBlocks.set seqId (materializedOf c seqId) }

def takeDuplicates (seqId : Nat) (c : PrefixCacheCoordinator ι κ μ) : PrefixCacheCoordinator ι κ μ :=
  { c with pendingDuplicateRefs := c.pendingDuplicateRefs.erase seqId }

theorem takeDuplicates_silent (seqId : Nat) (c : PrefixCacheCoordinator ι κ μ) :
    Silent seqId c (takeDuplicates seqId c) where
  index := rfl
  held := fun _ => rfl
  refs := fun _ => rfl
  holding := fun h => h.of_same rfl rfl rfl
  elsewhere := ⟨rfl, fun _ _ => rfl, fun _ _ => rfl, fun _ _ => rfl,
    fun _ hk => get?_erase_ne _ hk, fun _ _ => .rfl⟩
  runtime := rfl
  limited := rfl

theorem takePending_silent (seqId : Nat) (c : PrefixCacheCoordinator ι κ μ) :
    Silent seqId c (takePending seqId c) := by
  have hmat : ∀ k, materializedOf (takePending seqId c) k = materializedOf c k := by
    intro k
    show ((c.seqIdToMaterializedBlocks.set seqId _).get? k).getD .empty = _
    rw [get?_set]
    split
    · next hk => rw [hk, Option.getD_some]
    · rfl
  have hrefs : ∀ x, refs (takePending seqId c) x = refs c x := by
    intro x
    have hset := sumBy_set_getD (d := c.seqIdToMaterializedBlocks) (k := seqId) (e := empty)
      (f := fun d : Dict ι (MixedBlock ι κ) => if d.contains x then 1 else 0) rfl
      (materializedOf c seqId)
    have hgetD : (c.seqIdToMaterializedBlocks.get? seqId).getD empty =
      materializedOf c seqId := rfl
    rw [hgetD] at hset
    unfold refs takePending
    dsimp only
    omega
  refine ⟨rfl, fun k => ?_, hrefs, fun h => ⟨h.wf, fun x b hb => ?_, h.attached,
    fun k d hd => ?_⟩, ⟨rfl, fun k hk => Dict.get?_set_ne _ _ hk, fun _ _ => rfl,
    fun _ hk => get?_erase_ne _ hk, fun _ _ => rfl, fun _ _ => .rfl⟩, rfl, rfl⟩
  · show _ ++ (materializedOf (takePending seqId c) k).values = _ ++ (materializedOf c k).values
    rw [hmat]
    rfl
  · rw [hrefs]
    exact h.counts x b hb
  · have hget : (c.seqIdToMaterializedBlocks.set seqId (materializedOf c seqId)).get? k = some d :=
      hd
    rw [get?_set] at hget
    split at hget
    · cases hget
      unfold materializedOf
      cases hc : c.seqIdToMaterializedBlocks.get? seqId with
      | none => exact fun x b hb => absurd hb (by simp)
      | some d => exact h.materialized seqId d hc
    · exact h.materialized k d hget

theorem commitLoop_hands {ps : List (PendingMixedPrefixBlock ι κ)} (hh : Holding c)
    (ha : Accounts cfg (handOf ps) c) (hlen : ps.length ≤ 1)
    (hparent : ∀ p ∈ ps, ∀ q, p.parentBlockId = some q → onDevice c (some q) = true) :
    wp (commitLoop cfg seqId ps)
      (fun _ c' => Hands seqId (ps.map (·.stableBlockId)) c c' ∧
        c'.pendingBlocks = c.pendingBlocks ∧ c'.pendingDuplicateRefs = c.pendingDuplicateRefs ∧
        c'.prefixCache.epochs.insert = c.prefixCache.epochs.insert + ps.length)
      (fun _ _ => ¬ ∀ p ∈ ps, Marks cfg seqId p c) c := by
  match ps with
  | [] =>
    refine ⟨Silent.hands ⟨rfl, fun _ => rfl, fun _ => rfl, fun h => h, .of_tables rfl seqId, rfl,
      rfl⟩ hh, rfl, rfl, rfl⟩
  | p :: [] =>
    rw [commitLoop, wp_bind]
    refine wp_mono (commitPendingBlock_gained hh ha
      (hparent p (mem_singleton_self p))) (fun _ c₁ h₁ => ?_) fun _ _ he hall =>
        he (hall p (mem_singleton_self p))
    exact ⟨h₁.1.hands, h₁.1.pending, h₁.1.duplicates, h₁.2⟩
  | _ :: _ :: _ =>
    simp at hlen

theorem holdDuplicates_hands {ds : List ι} (hh : Holding c) (hlen : ds.length ≤ 1)
    (hindexed : ∀ id ∈ ds, ∃ b, c.prefixCache.blocks.get? id = some b)
    (hno : ∀ id ∈ ds, ¬ Holds c seqId id) :
    wp (PyM.forEach (holdDuplicate seqId) ds)
      (fun _ c' => Hands seqId ds c c' ∧ c'.pendingBlocks = c.pendingBlocks ∧
        c'.pendingDuplicateRefs = c.pendingDuplicateRefs ∧
        c'.prefixCache.epochs.insert = c.prefixCache.epochs.insert)
      (fun _ _ => False) c := by
  match ds with
  | [] =>
    refine ⟨Silent.hands ⟨rfl, fun _ => rfl, fun _ => rfl, fun h => h, .of_tables rfl seqId, rfl,
      rfl⟩ hh, rfl, rfl, rfl⟩
  | id :: [] =>
    obtain ⟨b, hb⟩ := hindexed id (mem_singleton_self id)
    have hid : b.stableBlockId = id := hh.wf.ids id b hb
    have hquiet : wp (holdMaterializedRef seqId b)
        (fun _ c' => c'.prefixCache.epochs.insert = c.prefixCache.epochs.insert)
        (fun _ c' => c'.prefixCache.epochs.insert = c.prefixCache.epochs.insert) c :=
      keeps_iff.mpr (holdMaterializedRef_quiet seqId b c hh.wf).index.membership.1
    rw [PyM.forEach, wp_bind, holdDuplicate, wp_bind, wp_get, hb]
    refine wp_mono (wp_and (holdMaterializedRef_spec hh (by rw [hid]; exact hb)) hquiet)
      (fun _ c₁ h₁ => ?_) fun _ _ he => he.1
    rw [hid] at h₁
    exact ⟨(h₁.1.gained hh (hno id (mem_singleton_self id))).hands, h₁.1.pending,
      h₁.1.duplicates, h₁.2⟩
  | _ :: _ :: _ =>
    simp at hlen

/-- At most one block waits, and its parent is on the device. -/
structure Committable (seqId : Nat) (c : PrefixCacheCoordinator ι κ μ) : Prop where
  single : (produced c seqId).length ≤ 1
  below : ∀ p ∈ pendings c seqId, ∀ q, p.parentBlockId = some q → onDevice c (some q) = true
  indexed : ∀ id ∈ duplicates c seqId, ∃ b, c.prefixCache.blocks.get? id = some b
  free : ∀ id ∈ duplicates c seqId, ¬ Holds c seqId id

structure Handed (seqId : Nat) (c c' : PrefixCacheCoordinator ι κ μ) : Prop where
  hands : Hands seqId (produced c seqId) c c'
  cleared : pendings c' seqId = [] ∧ duplicates c' seqId = []
  inserts : c'.prefixCache.epochs.insert = c.prefixCache.epochs.insert + (pendings c seqId).length

theorem commitSeqBlocks_shared (hh : Holding c) (h : Committable seqId c)
    (hps : pendings c seqId = []) :
    wp (commitSeqBlocks cfg seqId) (fun _ c' => Handed seqId c c') (fun _ _ => False) c := by
  have hsingle := h.single
  have hprod : produced c seqId = duplicates c seqId := by
    unfold produced
    rw [hps, map_nil, nil_append]
  rw [hprod] at hsingle
  have htake := takePending_silent seqId c
  have htake₁ := takeDuplicates_silent seqId (takePending seqId c)
  have hcommit : wp (PyM.forEach (holdDuplicate seqId) (duplicates c seqId))
      (fun _ c' => Handed seqId c c') (fun _ _ => False)
      (takeDuplicates seqId (takePending seqId c)) := by
    refine wp_mono (holdDuplicates_hands (htake₁.holding (htake.holding hh)) hsingle h.indexed
      fun id hid hheld => h.free id hid ?_) (fun _ c₁ h₁ => ?_) fun _ _ he => he
    · exact (htake.holds seqId id).mp ((htake₁.holds seqId id).mp hheld)
    · obtain ⟨hhands, hpend, hdup, hinsert⟩ := h₁
      refine ⟨hprod ▸ Hands.after htake (Hands.after htake₁ hhands), ⟨?_, ?_⟩, ?_⟩
      · unfold pendings
        rw [hpend]
        exact congrArg (Option.getD · []) (get?_erase_self c.pendingBlocks seqId)
      · unfold duplicates
        rw [hdup]
        exact congrArg (Option.getD · []) (get?_erase_self c.pendingDuplicateRefs seqId)
      · rw [hinsert, hps]
        rfl
  have hloop : (c.pendingBlocks.get? seqId).getD [] = [] := hps
  simp only [commitSeqBlocks, setMaterialized, wp_bind, wp_get, wp_modify, hloop, commitLoop]
  exact hcommit

theorem commitSeqBlocks_owned (hh : Holding c) (hb : Balanced cfg c) (h : Committable seqId c)
    (hds : duplicates c seqId = []) :
    wp (commitSeqBlocks cfg seqId) (fun _ c' => Handed seqId c c')
      (fun _ _ => ¬ ∀ p ∈ pendings c seqId, Marks cfg seqId p c) c := by
  have hsingle := h.single
  have hprod : produced c seqId = (pendings c seqId).map (·.stableBlockId) := by
    unfold produced
    rw [hds, append_nil]
  rw [hprod, length_map] at hsingle
  have htake := takePending_silent seqId c
  have ha : Accounts cfg (handOf (pendings c seqId)) (takePending seqId c) :=
    (hb.take seqId).undisturbed (undisturbed_rfl (hb.take seqId).wf rfl rfl rfl rfl rfl rfl rfl rfl)
  simp only [commitSeqBlocks, setMaterialized, wp_bind, wp_get, wp_modify]
  show wp (commitLoop cfg seqId (pendings c seqId)) _ _ (takePending seqId c)
  refine wp_mono (commitLoop_hands (htake.holding hh) ha hsingle
    (fun p hp q hq => (htake.onDevice q).trans (h.below p hp q hq))) (fun _ c₁ h₁ => ?_)
    fun _ _ he => he
  obtain ⟨hhands, hpend, hdup, hinsert⟩ := h₁
  have hnil : (c₁.pendingDuplicateRefs.get? seqId).getD [] = [] :=
    (congrArg (fun d => (d.get? seqId).getD []) hdup).trans hds
  rw [hnil]
  have hdone : Handed seqId c (takeDuplicates seqId c₁) := by
    refine ⟨hprod ▸ (Hands.after htake hhands).before (takeDuplicates_silent seqId c₁), ⟨?_, ?_⟩, hinsert⟩
    · show (c₁.pendingBlocks.get? seqId).getD [] = []
      rw [hpend]
      exact congrArg (Option.getD · []) (get?_erase_self c.pendingBlocks seqId)
    · exact congrArg (Option.getD · []) (get?_erase_self c₁.pendingDuplicateRefs seqId)
  exact hdone

theorem commitSeqBlocks_handed (hh : Holding c) (hb : Balanced cfg c) (h : Committable seqId c) :
    wp (commitSeqBlocks cfg seqId) (fun _ c' => Handed seqId c c')
      (fun _ _ => ¬ ∀ p ∈ pendings c seqId, Marks cfg seqId p c) c := by
  have hsingle := h.single
  unfold produced at hsingle
  rw [length_append, length_map] at hsingle
  by_cases hps : pendings c seqId = []
  · exact wp_mono (commitSeqBlocks_shared hh h hps) (fun _ _ hd => hd) fun _ _ he => he.elim
  · have hds : duplicates c seqId = [] := by
      have hpos := length_pos_iff.mpr hps
      exact length_eq_zero_iff.mp (by omega)
    exact commitSeqBlocks_owned hh hb h hds

end

/-- The commit loop after the turns of `done`. -/
structure Handing (cfg : CoordinatorConfig ι κ μ) (c₂ : PrefixCacheCoordinator ι κ μ)
    (done : List (MixedSequence ι)) (c : PrefixCacheCoordinator ι κ μ) : Prop where
  holding : Holding c
  balanced : Balanced cfg c
  kept : ∀ k q, Holds c₂ k q → onDevice c₂ (some q) = true → onDevice c (some q) = true
  holds : ∀ k x, Holds c₂ k x → Holds c k x
  prefixBlocks : c.seqIdToPrefixBlocks = c₂.seqIdToPrefixBlocks
  runtime : c.runtimeStates = c₂.runtimeStates
  limited : c.capacityLimitedSeqIds = c₂.capacityLimitedSeqIds
  rest : ∀ k, k ∉ done.map (·.seqId) →
    c.seqIdToMaterializedBlocks.get? k = c₂.seqIdToMaterializedBlocks.get? k ∧
    pendings c k = pendings c₂ k ∧ duplicates c k = duplicates c₂ k
  cleared : ∀ seq ∈ done, pendings c seq.seqId = [] ∧ duplicates c seq.seqId = []
  once : ∀ seq ∈ done, ∀ id ∈ produced c₂ seq.seqId,
    ((heldBlocks c seq.seqId).map (·.stableBlockId)).count id = 1
  refs : ∀ x, refs c x =
    refs c₂ x + (done.map fun seq => (produced c₂ seq.seqId).count x).sum
  absent : ∀ x, c₂.prefixCache.blocks.get? x = none →
    (∀ seq ∈ done, x ∉ produced c₂ seq.seqId) → c.prefixCache.blocks.get? x = none
  inserts : c.prefixCache.epochs.insert = c₂.prefixCache.epochs.insert +
    (done.map fun seq => (pendings c₂ seq.seqId).length).sum

section

variable {cfg : CoordinatorConfig ι κ μ} {isPrefill : Bool}
  {c c' c₁ c₂ : PrefixCacheCoordinator ι κ μ} {seq : MixedSequence ι}
  {done rest : List (MixedSequence ι)}

theorem Handing.start (h : Holding c) (hb : Balanced cfg c) : Handing cfg c [] c where
  holding := h
  balanced := hb
  kept := fun _ _ _ hd => hd
  holds := fun _ _ hx => hx
  prefixBlocks := rfl
  runtime := rfl
  limited := rfl
  rest := fun _ _ => ⟨rfl, rfl, rfl⟩
  cleared := fun _ hmem => absurd hmem not_mem_nil
  once := fun _ hmem => absurd hmem not_mem_nil
  refs := fun _ => rfl
  absent := fun _ hx _ => hx
  inserts := rfl

theorem Handing.heldBlocks (h : Handing cfg c₂ done c) {k : Nat} (hk : k ∉ done.map (·.seqId)) :
    heldBlocks c k = heldBlocks c₂ k := by
  unfold PrefixCacheCoordinator.heldBlocks
  rw [h.prefixBlocks, (h.rest k hk).1]

theorem holds_of_count {k : Nat} {id : ι}
    (h : ((heldBlocks c k).map (·.stableBlockId)).count id = 1) : Holds c k id := by
  have hmem : id ∈ (heldBlocks c k).map (·.stableBlockId) := count_pos_iff.mp (by omega)
  obtain ⟨b, hb, hid⟩ := mem_map.mp hmem
  exact ⟨b, hb, hid⟩

theorem Handing.committable (h : Handing cfg c₂ done c)
    (hrec : Recording cfg isPrefill c₁ (done ++ seq :: rest) c₂)
    (hnew : seq.seqId ∉ done.map (·.seqId)) : Committable seq.seqId c := by
  have hafter := hrec.turns seq (mem_append.mpr (.inr mem_cons_self))
  obtain ⟨-, hpend, hdup⟩ := h.rest _ hnew
  have hprod : produced c seq.seqId = produced c₂ seq.seqId := by
    unfold produced
    rw [hpend, hdup]
  have howner : ∀ id ∈ duplicates c seq.seqId, ∃ owner ∈ done,
      id ∈ (pendings c₂ owner.seqId).map (·.stableBlockId) := by
    intro id hid
    rw [hdup] at hid
    exact hrec.ordered done seq rest rfl id hid
  refine ⟨hprod ▸ hafter.single, fun p hp q hq => ?_, fun id hid => ?_, fun id hid hheld => ?_⟩
  · rw [hpend] at hp
    obtain ⟨hheld, hd⟩ := hafter.below p hp q hq
    exact h.kept _ q hheld hd
  · obtain ⟨owner, hmem, hid'⟩ := howner id hid
    have hheld := holds_of_count (h.once owner hmem id (mem_append.mpr (.inl hid')))
    obtain ⟨b, hb, -⟩ := hheld.referenced h.holding
    exact ⟨b, hb⟩
  · obtain ⟨owner, -, hid'⟩ := howner id hid
    obtain ⟨p, hp, rfl⟩ := mem_map.mp hid'
    have habsent := hrec.balanced.absent_of_pending hp
    refine not_holds_of_absent hrec.holding habsent seq.seqId ?_
    unfold Holds at hheld ⊢
    rw [h.heldBlocks hnew] at hheld
    exact hheld

theorem Handing.turn (h : Handing cfg c₂ done c) (hnew : seq.seqId ∉ done.map (·.seqId))
    (ht : Handed seq.seqId c c') (hb : Balanced cfg c') : Handing cfg c₂ (done ++ [seq]) c' := by
  obtain ⟨-, hpend, hdup⟩ := h.rest _ hnew
  have hprod : produced c seq.seqId = produced c₂ seq.seqId := by
    unfold produced
    rw [hpend, hdup]
  have hhands := ht.hands
  rw [hprod] at hhands
  have hold : ∀ s ∈ done, s.seqId ≠ seq.seqId :=
    fun s hs' heq => hnew (heq ▸ mem_map_of_mem hs')
  have hpend' : ∀ k, k ≠ seq.seqId → pendings c' k = pendings c k := fun k hk => by
    unfold pendings
    rw [hhands.elsewhere.pending k hk]
  have hdup' : ∀ k, k ≠ seq.seqId → duplicates c' k = duplicates c k := fun k hk => by
    unfold duplicates
    rw [hhands.elsewhere.duplicates k hk]
  refine ⟨hhands.holding, hb, fun k q hq hd => ?_, fun k x hx => ?_, ?_, ?_, ?_, fun k hk => ?_,
    fun s hmem => ?_, fun s hmem id hid => ?_, fun x => ?_, fun x hx hno => ?_, ?_⟩
  · exact hhands.kept k q (h.holds k q hq) (h.kept k q hq hd)
  · by_cases hk : k = seq.seqId
    · subst hk
      exact hhands.mono x (h.holds _ x hx)
    · unfold Holds
      rw [hhands.elsewhere.heldBlocks hk]
      exact h.holds k x hx
  · exact hhands.elsewhere.prefixBlocks.trans h.prefixBlocks
  · exact hhands.runtime.trans h.runtime
  · exact hhands.limited.trans h.limited
  · rw [map_append, mem_append, not_or, map_singleton, mem_singleton] at hk
    obtain ⟨hm, hp, hd⟩ := h.rest k hk.1
    exact ⟨(hhands.elsewhere.materialized k hk.2).trans hm, (hpend' k hk.2).trans hp,
      (hdup' k hk.2).trans hd⟩
  · rcases mem_append.mp hmem with hmem | hmem
    · rw [hpend' _ (hold s hmem), hdup' _ (hold s hmem)]
      exact h.cleared s hmem
    · rw [mem_singleton.mp hmem]
      exact ht.cleared
  · rcases mem_append.mp hmem with hmem | hmem
    · rw [hhands.elsewhere.heldBlocks (hold s hmem)]
      exact h.once s hmem id hid
    · rw [mem_singleton.mp hmem] at hid ⊢
      exact hhands.once id hid
  · rw [hhands.refs x, h.refs x, map_append, sum_append, map_singleton,
      sum_singleton, Nat.add_assoc]
  · refine hhands.absent x (hno seq (mem_append.mpr (.inr (mem_singleton_self _)))) ?_
    exact h.absent x hx fun s hs => hno s (mem_append.mpr (.inl hs))
  · rw [ht.inserts, h.inserts, hpend, map_append, sum_append, map_singleton,
      sum_singleton, Nat.add_assoc]

/-- Every mark of `commit_pending_blocks` returns, at its turn. -/
def MarksReturn (cfg : CoordinatorConfig ι κ μ) :
    List (MixedSequence ι) → PrefixCacheCoordinator ι κ μ → Prop
  | [], _ => True
  | seq :: rest, c => (∀ p ∈ pendings c seq.seqId, Marks cfg seq.seqId p c) ∧
      MarksReturn cfg rest (commitSeqBlocks cfg seq.seqId c).2

theorem commit_loop :
    ∀ (rest done : List (MixedSequence ι)) (c : PrefixCacheCoordinator ι κ μ),
    Handing cfg c₂ done c → ((done ++ rest).map (·.seqId)).Nodup →
    Recording cfg isPrefill c₁ (done ++ rest) c₂ →
    wp (commitPendingBlocks cfg rest) (fun _ c' => Handing cfg c₂ (done ++ rest) c')
      (fun _ _ => ¬ MarksReturn cfg rest c) c
  | [], done, c, h, _, _ => by
    rw [append_nil]
    exact h
  | seq :: rest, done, c, h, hnodup, hrec => by
    have hnew : seq.seqId ∉ done.map (·.seqId) := by
      rw [map_append, map_cons] at hnodup
      intro hmem
      exact (nodup_append.mp hnodup).2.2 _ hmem _ mem_cons_self rfl
    have hkeep : wp (commitSeqBlocks cfg seq.seqId) (fun _ => Balanced cfg) (fun _ => Balanced cfg)
        c := keeps_iff.mpr (commitSeqBlocks_keeping seq.seqId c h.balanced)
    unfold commitPendingBlocks
    rw [PyM.forEach, wp_bind]
    refine wp_mono (wp_and wp_self (wp_and (commitSeqBlocks_handed h.holding h.balanced
      (h.committable hrec hnew)) hkeep)) (fun _ c' hc' => ?_) fun _ _ he hall => he.2.1 hall.1
    obtain ⟨hrun, hhanded, hbalanced⟩ := hc'
    have hnext := commit_loop rest (done ++ [seq]) c' (h.turn hnew hhanded hbalanced)
      (by rwa [append_assoc]) (by rwa [append_assoc])
    rw [append_assoc] at hnext
    refine wp_mono hnext (fun _ _ hd => hd) fun _ _ he hall => he ?_
    have hlater := hall.2
    rwa [hrun] at hlater

end

end SparseEngine.PrefixCacheCoordinator
