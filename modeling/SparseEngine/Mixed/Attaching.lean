import SparseEngine.Mixed.Turns

/-! A prefix hit gives a sequence one reference on every block of its chain. -/

namespace SparseEngine.PrefixCacheCoordinator

open PyM RadixPrefixIndex

variable {ι κ μ : Type} [LinearOrder ι]

section

variable {π : Type} {s s' : RadixPrefixIndex ι π} {cfg : CoordinatorConfig ι κ μ}

theorem beginH2d_loyal (b : PrefixCacheBlock ι π) : Along IndexLoyal (beginH2d b) :=
  loyal_of_recast (fun _ hwf => beginH2d_spec hwf b) fun _ _ => rfl

theorem touchChain_loyal (bs : List (PrefixCacheBlock ι π)) : Along IndexLoyal (touchChain bs) := by
  intro s hwf _
  have hspec := touchChain_spec hwf bs
  have hkeep : Keeps (Loyal s) (touchChain bs) s := by
    refine wp_mono hspec (fun _ s' h => ?_) fun _ _ h => h.elim
    obtain ⟨hsteps, hupd⟩ := h
    refine ⟨hsteps.wf hwf, fun id n hn => ?_, fun id o ho _ => ?_⟩
    · obtain ⟨o, ho⟩ := Dict.mem_keySet.mp (hupd.keys ▸ Dict.mem_keySet.mpr ⟨n, hn⟩)
      obtain ⟨hid, t, ht⟩ := hupd.same id o n ho hn
      exact ⟨o, ho, hid, by rw [ht]⟩
    · obtain ⟨n, hn⟩ := Dict.mem_keySet.mp (hupd.keys ▸ Dict.mem_keySet.mpr ⟨o, ho⟩)
      obtain ⟨-, t, ht⟩ := hupd.same id o n ho hn
      exact ⟨n, hn, fun hd => by rw [ht]; exact hd⟩
  exact keeps_iff.mp hkeep

theorem submitH2d_returns (blocks : List (MixedBlock ι κ)) :
    Returns (@Steady ι κ μ _) (submitH2d cfg blocks) := by
  unfold submitH2d
  refine returns_bind (along_raiseIf _ _).returns fun _ => ?_
  refine returns_bind tolerates_steady.nextDeviceCall.returns fun k => ?_
  refine returns_bind (along_raiseIf _ _).returns fun _ => ?_
  refine returns_bind along_get.returns fun c => ?_
  refine returns_bind (along_lift _).returns fun _ => returns_bind (along_lift _).returns fun _ => ?_
  refine returns_bind (along_raiseIf _ _).returns fun _ => ?_
  refine returns_bind (along_untilError (fun b => steady_onIndex (beginH2d_loyal b)) _).returns
    fun begun => ?_
  have habort : ∀ e : PyError, Returns (@Steady ι κ μ _)
      (PyM.forEach (fun b => onIndex (RadixPrefixIndex.abortH2d b)) begun.1.reverse >>= fun _ =>
        PyM.raise (α := Unit) e) :=
    fun e => returns_of_raises (raises_bind fun _ _ => trivial)
  obtain ⟨begun, error⟩ := begun
  dsimp only
  cases error with
  | some e => exact habort e
  | none =>
    dsimp only
    split
    · exact habort _
    · exact (tolerates_steady.offload _).returns

theorem promoteBlocks_returns (hostOnly : List (MixedBlock ι κ)) :
    Returns (@Steady ι κ μ _) (promoteBlocks cfg hostOnly) := by
  unfold promoteBlocks
  refine returns_bind tolerates_steady.nextDeviceCall.returns fun _ => ?_
  refine returns_bind (along_raiseIf _ _).returns fun _ => returns_bind along_get.returns fun c => ?_
  refine returns_bind (evictForSlots_steady _).returns fun _ => ?_
  refine returns_bind (tolerates_steady.managers _).returns fun _ => ?_
  exact returns_bind (tolerates_steady.allocateDeviceRecurrent _).returns fun _ =>
    submitH2d_returns _

theorem setLocals_returns (f : AttachLocals → AttachLocals) : Returns (fun s t => Steady s.1 t.1)
    (PyM.modify fun t : PrefixCacheCoordinator ι κ μ × AttachLocals => (t.1, f t.2)) :=
  fun s => show Steady s.1 s.1 from refl s.1

theorem attachPayloads_returns (seqId : Nat) (chain : List (MixedBlock ι κ)) :
    Returns (fun s t => Steady s.1 t.1) (attachPayloads cfg seqId chain) := by
  unfold attachPayloads
  refine returns_bind (returns_outer (tolerates_steady.managers _).returns) fun _ => ?_
  refine returns_bind (setLocals_returns fun l => { l with attached := true }) fun _ => ?_
  split
  · exact (along_pure _).returns
  · exact returns_bind along_get.returns fun t =>
      returns_outer (tolerates_steady.managers _).returns

variable (cfg) in
theorem attachChain_returns (seqId : Nat) (chain hostOnly : List (MixedBlock ι κ)) :
    Returns (fun s t => Steady s.1 t.1) (attachChain cfg seqId chain hostOnly) := by
  unfold attachChain
  dsimp only
  split
  · exact attachPayloads_returns seqId chain
  · exact returns_bind (returns_outer (promoteBlocks_returns hostOnly)) fun _ =>
      returns_bind (setLocals_returns fun l => { l with submitted := true }) fun _ =>
        attachPayloads_returns seqId chain

omit [LinearOrder ι] in
theorem raiseRollback_raises (e : PyError) (r : Option PyError) (c : PrefixCacheCoordinator ι κ μ) :
    wp (match r with
      | some _ => PyM.raise (.runtimeError "Mixed prefix attach rollback failed")
      | none => PyM.raise e : CoordM ι κ μ Unit) (fun _ _ => False) (fun _ _ => True) c := by
  cases r <;> trivial

variable (cfg) in
theorem releaseRollback_raises (chain hostOnly : List (MixedBlock ι κ)) (locals : AttachLocals)
    (e : PyError) (r : Option PyError) (c : PrefixCacheCoordinator ι κ μ) : wp (do
      PyM.forEach (fun b => onIndex (RadixPrefixIndex.releaseBlockRef b)) chain
      if hostOnly.isEmpty || locals.submitted then
        pure ()
      else
        PyM.forEach (undoPromotion cfg) hostOnly
      match r with
      | some _ => PyM.raise (.runtimeError "Mixed prefix attach rollback failed")
      | none => PyM.raise e : CoordM ι κ μ Unit) (fun _ _ => False) (fun _ _ => True) c := by
  revert c
  refine raises_bind fun _ c => ?_
  dsimp only
  split
  · exact raiseRollback_raises e r c
  · exact raises_bind (fun _ => raiseRollback_raises e r) c

theorem rollbackAttach_raises (seqId : Nat) (chain hostOnly : List (MixedBlock ι κ))
    (rowPreexisted : Bool) (locals : AttachLocals) (e : PyError) (c : PrefixCacheCoordinator ι κ μ) :
    wp (rollbackAttach cfg seqId chain hostOnly rowPreexisted locals e) (fun _ _ => False)
      (fun _ _ => True) c := by
  unfold rollbackAttach
  dsimp only
  split
  · exact raises_bind (releaseRollback_raises cfg chain hostOnly locals e) c
  · exact releaseRollback_raises cfg chain hostOnly locals e none c

end

structure Attached (seq : MixedSequence ι) (c c' : PrefixCacheCoordinator ι κ μ) : Prop where
  holding : Holding c'
  holds : ∀ k x, Holds c k x → Holds c' k x
  materialized : c'.seqIdToMaterializedBlocks = c.seqIdToMaterializedBlocks
  runtime : c'.runtimeStates = c.runtimeStates
  pending : c'.pendingBlocks = c.pendingBlocks
  duplicates : c'.pendingDuplicateRefs = c.pendingDuplicateRefs
  limited : c'.capacityLimitedSeqIds = c.capacityLimitedSeqIds
  others : ∀ k, k ≠ seq.seqId → c'.seqIdToPrefixBlocks.get? k = c.seqIdToPrefixBlocks.get? k
  chain : seq.prefixCacheHitLen ≠ 0 → ∃ bs, c'.seqIdToPrefixBlocks.get? seq.seqId = some bs ∧
    (c.seqIdToPrefixBlocks.get? seq.seqId = some bs ∨
      ∃ b ∈ bs, seq.prefixCacheHitLastBlockId = some b.stableBlockId)
  skipped : seq.prefixCacheHitLen = 0 →
    c'.seqIdToPrefixBlocks.get? seq.seqId = c.seqIdToPrefixBlocks.get? seq.seqId

section

variable {cfg : CoordinatorConfig ι κ μ} {c c' : PrefixCacheCoordinator ι κ μ}
  {seq : MixedSequence ι}

theorem Holding.attach (seq : MixedSequence ι) {chain : List (MixedBlock ι κ)} {s₁ : RadixPrefixIndex ι (MixedPrefixBlockPayload κ)}
    (h : Holding c) (hnone : c.seqIdToPrefixBlocks.get? seq.seqId = none)
    (hchain : ∀ b ∈ chain, c.prefixCache.isIndexed b = true)
    (hcount : Counted (refsOf chain) c.prefixCache s₁) (hloyal : Loyal s₁ c'.prefixCache)
    (htables : tables c' = tables c) :
    Holding { c' with seqIdToPrefixBlocks := c'.seqIdToPrefixBlocks.set seq.seqId chain } := by
  have hp : c'.seqIdToPrefixBlocks = c.seqIdToPrefixBlocks :=
    congrArg SequenceTables.prefixBlocks htables
  have hm : c'.seqIdToMaterializedBlocks = c.seqIdToMaterializedBlocks :=
    congrArg SequenceTables.materializedBlocks htables
  have hnone' : c'.seqIdToPrefixBlocks.get? seq.seqId = none := by rw [hp, hnone]
  have hrefs : ∀ x, refs { c' with
      seqIdToPrefixBlocks := c'.seqIdToPrefixBlocks.set seq.seqId chain } x =
      refs c x + (chain.map (·.stableBlockId)).count x := by
    intro x
    rw [← refs_tables htables x]
    unfold refs
    dsimp only
    rw [Dict.sumBy_set_new _ chain hnone']
    omega
  -- A block with a reference in `s₁` is still the same block.
  have hindexed : ∀ b : MixedBlock ι κ, c.prefixCache.isIndexed b = true →
      (∀ o, c.prefixCache.blocks.get? b.stableBlockId = some o →
        0 < o.refCount + refsOf chain b.stableBlockId) → c'.prefixCache.isIndexed b = true := by
    intro b hb hpos
    obtain ⟨o, ho, -⟩ := isIndexed_iff.mp hb
    exact Loyal.isIndexed hloyal ((hcount.isIndexed b).trans hb) (hcount.of_get ho) (hpos o ho)
  have hheld : ∀ k (b : MixedBlock ι κ), b ∈ heldBlocks c k → c'.prefixCache.isIndexed b = true := by
    intro k b hb
    refine hindexed b (h.isIndexed hb) fun o ho => ?_
    obtain ⟨d, hd, hpos⟩ := Holds.referenced ⟨b, hb, rfl⟩ h
    rw [ho] at hd
    cases hd
    have hnonneg : 0 ≤ refsOf chain b.stableBlockId := Int.natCast_nonneg _
    omega
  refine ⟨hloyal.wf, fun id b hb => ?_, fun k bs hbs b hmem => ?_, fun k d hd id b hid => ?_⟩
  · obtain ⟨b₁, hb₁, -, href⟩ := hloyal.back id b hb
    obtain ⟨o, ho, rfl⟩ := hcount.back hb₁
    rw [href, hrefs]
    show o.refCount + refsOf chain id = _
    rw [h.counts id o ho]
    push_cast
    rfl
  · have hbs' : (c'.seqIdToPrefixBlocks.set seq.seqId chain).get? k = some bs := hbs
    rw [Dict.get?_set] at hbs'
    split at hbs'
    · cases hbs'
      refine hindexed b (hchain b hmem) fun o ho => ?_
      have hnonneg := h.nonneg _ o ho
      have hpos := refsOf_pos hmem
      omega
    · rw [hp] at hbs'
      exact hheld k b (mem_heldBlocks.mpr (.inl ⟨bs, hbs', hmem⟩))
  · have hd' : c.seqIdToMaterializedBlocks.get? k = some d := hm ▸ hd
    exact ⟨(h.materialized k d hd' id b hid).1,
      hheld k b (mem_heldBlocks.mpr (.inr ⟨d, id, hd', hid⟩))⟩

omit [LinearOrder ι] in
theorem forEach_onIndex {β : Type} (f : β → IndexM ι (MixedPrefixBlockPayload κ) Unit) (l : List β) :
    PyM.forEach (fun b => onIndex (μ := μ) (f b)) l = onIndex (PyM.forEach f l) := by
  unfold onIndex
  apply forEach_zoom <;> intros <;> rfl

theorem ChainOf.last_mem {s : RadixPrefixIndex ι (MixedPrefixBlockPayload κ)} {id : ι} {n : Nat}
    {chain : List (MixedBlock ι κ)} (h : ChainOf s id n chain) (hne : chain ≠ []) :
    ∃ b ∈ chain, b.stableBlockId = id := by
  obtain ⟨l, hl, hmap, -⟩ := h.path
  have hdrop : l.drop (l.length - n) ≠ [] := by
    rw [← hmap]
    exact fun hnil => hne (List.map_eq_nil_iff.mp hnil)
  have hlast : (l.drop (l.length - n)).getLast? = some id := by
    rw [List.getLast?_drop, if_neg]
    · exact hl.getLast?_eq
    · intro hle
      exact hdrop (List.drop_eq_nil_iff.mpr hle)
  have hmem : id ∈ chain.map (·.stableBlockId) := by
    rw [hmap]
    exact List.mem_of_getLast? hlast
  obtain ⟨b, hb, hid⟩ := List.mem_map.mp hmem
  exact ⟨b, hb, hid⟩

theorem Attached.of_chain (chain : List (MixedBlock ι κ)) (hlen : seq.prefixCacheHitLen ≠ 0)
    (hnone : c.seqIdToPrefixBlocks.get? seq.seqId = none)
    (hlast : ∃ b ∈ chain, seq.prefixCacheHitLastBlockId = some b.stableBlockId)
    (hholding : Holding c') (hp : c'.seqIdToPrefixBlocks = c.seqIdToPrefixBlocks.set seq.seqId chain)
    (hm : c'.seqIdToMaterializedBlocks = c.seqIdToMaterializedBlocks)
    (hr : c'.runtimeStates = c.runtimeStates) (hpend : c'.pendingBlocks = c.pendingBlocks)
    (hdup : c'.pendingDuplicateRefs = c.pendingDuplicateRefs)
    (hlim : c'.capacityLimitedSeqIds = c.capacityLimitedSeqIds) : Attached seq c c' := by
  refine ⟨hholding, fun k x hx => ?_, hm, hr, hpend, hdup, hlim, fun k hk => ?_, fun _ => ?_,
    fun hzero => absurd hzero hlen⟩
  · obtain ⟨b, hb, hid⟩ := hx
    refine ⟨b, mem_heldBlocks.mpr ((mem_heldBlocks.mp hb).imp ?_ ?_), hid⟩
    · rintro ⟨bs, hbs, hmem⟩
      refine ⟨bs, ?_, hmem⟩
      have hk : k ≠ seq.seqId := by
        rintro rfl
        rw [hnone] at hbs
        cases hbs
      rw [hp, Dict.get?_set_ne _ _ hk]
      exact hbs
    · rintro ⟨d, x, hd, hx⟩
      exact ⟨d, x, by rw [hm]; exact hd, hx⟩
  · rw [hp, Dict.get?_set_ne _ _ hk]
  · exact ⟨chain, by rw [hp, Dict.get?_set, if_pos rfl], .inr hlast⟩

theorem attachSeq_attached (h : Holding c) :
    wp (attachSeq cfg seq) (fun _ c' => Attached seq c c') (fun _ _ => True) c := by
  unfold attachSeq
  rw [wp_bind, wp_get, wp_ite]
  split
  · next hskip =>
    refine ⟨h, fun _ _ hx => hx, rfl, rfl, rfl, rfl, rfl, fun _ _ => rfl, fun hlen => ?_,
      fun _ => rfl⟩
    obtain ⟨bs, hbs⟩ := Dict.contains_iff.mp (hskip.resolve_left hlen)
    exact ⟨bs, hbs, .inl hbs⟩
  · next hskip =>
    rw [not_or, Bool.not_eq_true, Dict.contains_eq_false] at hskip
    obtain ⟨hlen, hnone⟩ := hskip
    cases hlast : seq.prefixCacheHitLastBlockId with
    | none => trivial
    | some lastBlockId =>
      dsimp only
      simp only [wp_bind, wp_raiseIf, wp_lift]
      refine ⟨fun _ => trivial, fun _ => ?_⟩
      cases hget : c.prefixCache.getChain lastBlockId seq.prefixCacheHitBlockCount with
      | error e => trivial
      | ok chain =>
        dsimp only
        refine ⟨fun _ => trivial, fun hlength => ?_⟩
        cases hhost : hostOnlyBlocks cfg c.offload chain false with
        | error e => trivial
        | ok hostOnly =>
          dsimp only
          unfold onManagers
          rw [wp_zoom]
          refine wp_mono ((keeps_iff (I := fun _ => True)).mpr trivial) (fun row m _ => ?_)
            fun _ _ _ => trivial
          have hspec := getChain_spec h.wf hget
          have hacquire : wp (PyM.forEach (fun b => onIndex (RadixPrefixIndex.acquireBlockRef b))
              chain) (fun _ c₁ => Counted (refsOf chain) c.prefixCache c₁.prefixCache ∧
                tables c₁ = tables c) (fun _ _ => True) { c with managers := m } := by
            rw [forEach_onIndex, onIndex, wp_zoom]
            exact wp_mono (acquireRefs_counted h.wf h.nonneg chain hspec.isIndexed)
              (fun _ s₁ hs₁ => ⟨hs₁, rfl⟩) fun _ _ he => he.elim
          refine wp_mono hacquire (fun _ c₁ h₁ => ?_) fun _ _ ht => ht
          have hraises : ∀ (e : PyError) (t : PrefixCacheCoordinator ι κ μ × AttachLocals),
              wp (PyM.get >>= fun t : PrefixCacheCoordinator ι κ μ × AttachLocals =>
                PyM.outer (rollbackAttach cfg seq.seqId chain hostOnly row t.2 e))
                (fun _ _ => False) (fun _ _ => True) t := by
            intro e t
            rw [wp_bind, wp_get, wp_outer]
            exact rollbackAttach_raises seq.seqId chain hostOnly row t.2 e t.1
          have hattach := returns_withLocals (l := ({} : AttachLocals)) (returns_tryExcept
            (attachChain_returns cfg seq.seqId chain hostOnly) hraises)
          refine wp_mono (hattach c₁) (fun _ c₂ h₂ => ?_) fun _ _ ht => ht
          have hk := h₂ h₁.1.wf fun id n hn => by
            obtain ⟨o, ho, rfl⟩ := h₁.1.back hn
            have hnn := h.nonneg id o ho
            have hnn' := refsOf_nonneg chain id
            show 0 ≤ o.refCount + refsOf chain id
            omega
          have htables := hk.tables.trans h₁.2
          have hholding := h.attach seq hnone hspec.isIndexed h₁.1 hk.index htables
          rw [wp_modify]
          refine wp_mono (steady_wp (steady_onIndex (touchChain_loyal chain)) hholding)
            (fun _ c₃ h₃ => ?_) fun _ _ ht => ht
          refine .of_chain chain hlen hnone ?_ (hholding.kept h₃) ?_ ?_ ?_ ?_ ?_ ?_
          · have hne : chain ≠ [] := by
              rintro rfl
              exact hlength fun heq => hlen (by rw [← heq]; exact Nat.zero_mul _)
            obtain ⟨b, hb, hid⟩ := ChainOf.last_mem hspec hne
            exact ⟨b, hb, by rw [hlast, hid]⟩
          · exact (congrArg SequenceTables.prefixBlocks h₃.tables).trans
              (congrArg (fun t => t.prefixBlocks.set seq.seqId chain) htables)
          · exact (congrArg SequenceTables.materializedBlocks h₃.tables).trans
              (congrArg SequenceTables.materializedBlocks htables)
          · exact (congrArg SequenceTables.runtimeStates h₃.tables).trans
              (congrArg SequenceTables.runtimeStates htables)
          · exact (congrArg SequenceTables.pendingBlocks h₃.tables).trans
              (congrArg SequenceTables.pendingBlocks htables)
          · exact (congrArg SequenceTables.pendingDuplicateRefs h₃.tables).trans
              (congrArg SequenceTables.pendingDuplicateRefs htables)
          · exact (congrArg SequenceTables.capacityLimitedSeqIds h₃.tables).trans
              (congrArg SequenceTables.capacityLimitedSeqIds htables)

end

structure Dismissed (seqId : Nat) (c c' : PrefixCacheCoordinator ι κ μ) : Prop where
  holding : Holding c'
  prefixBlocks : c'.seqIdToPrefixBlocks = c.seqIdToPrefixBlocks.erase seqId
  materialized : c'.seqIdToMaterializedBlocks = c.seqIdToMaterializedBlocks.erase seqId
  runtime : c'.runtimeStates = c.runtimeStates.erase seqId
  pending : c'.pendingBlocks = c.pendingBlocks.erase seqId
  duplicates : c'.pendingDuplicateRefs = c.pendingDuplicateRefs.erase seqId
  limited : c'.capacityLimitedSeqIds = c.capacityLimitedSeqIds.erase seqId

section

variable {cfg : CoordinatorConfig ι κ μ} {c c' : PrefixCacheCoordinator ι κ μ} {seqId : Nat}

def withoutHeld (seqId : Nat) (c : PrefixCacheCoordinator ι κ μ) : PrefixCacheCoordinator ι κ μ :=
  { c with
    seqIdToPrefixBlocks := c.seqIdToPrefixBlocks.erase seqId
    seqIdToMaterializedBlocks := c.seqIdToMaterializedBlocks.erase seqId }

theorem refs_withoutHeld (h : Holding c) (seqId : Nat) (x : ι) :
    refs (withoutHeld seqId c) x + ((heldBlocks c seqId).map (·.stableBlockId)).count x =
      refs c x := by
  have hattached := sumBy_erase_getD (d := c.seqIdToPrefixBlocks) (k := seqId) (e := [])
    (f := fun bs : List (MixedBlock ι κ) => (bs.map (·.stableBlockId)).count x) rfl
  have hmaterialized := sumBy_erase_getD (d := c.seqIdToMaterializedBlocks) (k := seqId)
    (e := Dict.empty) (f := fun d : Dict ι (MixedBlock ι κ) => if d.contains x then 1 else 0) rfl
  have hkeys : ((materializedOf c seqId).values.map (·.stableBlockId)).count x =
      if (materializedOf c seqId).contains x then 1 else 0 := by
    rw [h.materialized_sids]
    split
    · next hcon =>
      exact List.count_eq_one_of_mem (Dict.keys_nodup _)
        (Dict.mem_keys.mpr (Dict.contains_iff.mp hcon))
    · next hcon =>
      exact List.count_eq_zero.mpr fun hmem => hcon (Dict.contains_iff.mpr (Dict.mem_keys.mp hmem))
  have hheld : heldBlocks c seqId =
      (c.seqIdToPrefixBlocks.get? seqId).getD [] ++ (materializedOf c seqId).values := rfl
  have hgetD : (c.seqIdToMaterializedBlocks.get? seqId).getD Dict.empty = materializedOf c seqId :=
    rfl
  rw [hheld, List.map_append, List.count_append, hkeys]
  rw [hgetD] at hmaterialized
  unfold refs withoutHeld
  dsimp only
  omega

theorem refsOf_heldBlocks (h : Holding c) (seqId : Nat) (x : ι) :
    (refs (withoutHeld seqId c) x : Int) + refsOf (heldBlocks c seqId) x = refs c x := by
  rw [← refs_withoutHeld h seqId x, Nat.cast_add]
  rfl

theorem mem_heldBlocks_withoutHeld {k : Nat} {b : MixedBlock ι κ}
    (hb : b ∈ heldBlocks (withoutHeld seqId c) k) : b ∈ heldBlocks c k := by
  rcases mem_heldBlocks.mp hb with ⟨bs, hbs, hmem⟩ | ⟨d, id, hd, hid⟩
  · have hbs' : (c.seqIdToPrefixBlocks.erase seqId).get? k = some bs := hbs
    rw [Dict.get?_erase] at hbs'
    split at hbs'
    · cases hbs'
    · exact mem_heldBlocks.mpr (.inl ⟨bs, hbs', hmem⟩)
  · have hd' : (c.seqIdToMaterializedBlocks.erase seqId).get? k = some d := hd
    rw [Dict.get?_erase] at hd'
    split at hd'
    · cases hd'
    · exact mem_heldBlocks.mpr (.inr ⟨d, id, hd', hid⟩)

theorem releaseHeld_spec (h : Holding c) (seqId : Nat) :
    wp (PyM.forEach (fun b => onIndex (RadixPrefixIndex.releaseBlockRef b
        "Mixed prefix cache block ref_count became negative.")) (heldBlocks c seqId))
      (fun _ c' => Holding c' ∧ tables c' = tables (withoutHeld seqId c)) (fun _ _ => False)
      (withoutHeld seqId c) := by
  rw [forEach_onIndex, onIndex, wp_zoom]
  have hle : ∀ id o, c.prefixCache.blocks.get? id = some o →
      refsOf (heldBlocks c seqId) id ≤ o.refCount := by
    intro id o ho
    have hrefs := refsOf_heldBlocks h seqId id
    rw [h.counts id o ho]
    omega
  refine wp_mono (releaseRefs_counted h.wf _ (heldBlocks c seqId) (fun b hb => h.isIndexed hb) hle)
    (fun _ s' hs => ?_) fun _ _ he => he
  have hindexed : ∀ k (b : MixedBlock ι κ), b ∈ heldBlocks (withoutHeld seqId c) k →
      s'.isIndexed b = true :=
    fun k b hb => (hs.isIndexed b).trans (h.isIndexed (mem_heldBlocks_withoutHeld hb))
  refine ⟨⟨hs.wf, fun id b hb => ?_, fun k bs hbs b hmem => ?_, fun k d hd id b hid => ?_⟩, rfl⟩
  · obtain ⟨o, ho, rfl⟩ := hs.back hb
    have hrefs := refsOf_heldBlocks h seqId id
    show o.refCount + -refsOf (heldBlocks c seqId) id = (refs (withoutHeld seqId c) id : Int)
    rw [h.counts id o ho]
    omega
  · exact hindexed k b (mem_heldBlocks.mpr (.inl ⟨bs, hbs, hmem⟩))
  · refine ⟨?_, hindexed k b (mem_heldBlocks.mpr (.inr ⟨d, id, hd, hid⟩))⟩
    have hd' : (c.seqIdToMaterializedBlocks.erase seqId).get? k = some d := hd
    rw [Dict.get?_erase] at hd'
    split at hd'
    · cases hd'
    · exact (h.materialized k d hd' id b hid).1

theorem releaseSeq_dismissed (h : Holding c) (hidle : pendings c seqId = []) :
    wp (releaseSeq cfg seqId) (fun _ c' => Dismissed seqId c c') (fun _ _ => True) c := by
  simp only [releaseSeq, wp_bind, wp_get, wp_modify]
  refine wp_mono (releaseHeld_spec h seqId) (fun _ c₁ h₁ => ?_) fun _ _ he => he.elim
  obtain ⟨hholding, htables⟩ := h₁
  have hpend : (c₁.pendingBlocks.get? seqId).getD [] = [] := by
    rw [show c₁.pendingBlocks = c.pendingBlocks from congrArg SequenceTables.pendingBlocks htables]
    exact hidle
  rw [hpend]
  have hlast : Holding { c₁ with
      runtimeStates := c₁.runtimeStates.erase seqId
      pendingBlocks := c₁.pendingBlocks.erase seqId
      pendingDuplicateRefs := c₁.pendingDuplicateRefs.erase seqId
      capacityLimitedSeqIds := c₁.capacityLimitedSeqIds.erase seqId } :=
    hholding.of_same rfl rfl rfl
  rw [PyM.forEach, wp_pure]
  refine wp_mono (steady_wp (scheduleWriteThrough_steady (heldBlocks c seqId)) hlast)
    (fun _ c₂ h₂ => ?_) fun _ _ ht => ht
  refine ⟨hlast.kept h₂, ?_, ?_, ?_, ?_, ?_, ?_⟩
  · exact (congrArg SequenceTables.prefixBlocks h₂.tables).trans
      (congrArg SequenceTables.prefixBlocks htables)
  · exact (congrArg SequenceTables.materializedBlocks h₂.tables).trans
      (congrArg SequenceTables.materializedBlocks htables)
  · exact (congrArg SequenceTables.runtimeStates h₂.tables).trans
      (congrArg (fun t => t.runtimeStates.erase seqId) htables)
  · exact (congrArg SequenceTables.pendingBlocks h₂.tables).trans
      (congrArg (fun t => t.pendingBlocks.erase seqId) htables)
  · exact (congrArg SequenceTables.pendingDuplicateRefs h₂.tables).trans
      (congrArg (fun t => t.pendingDuplicateRefs.erase seqId) htables)
  · exact (congrArg SequenceTables.capacityLimitedSeqIds h₂.tables).trans
      (congrArg (fun t => t.capacityLimitedSeqIds.erase seqId) htables)

end

end SparseEngine.PrefixCacheCoordinator
