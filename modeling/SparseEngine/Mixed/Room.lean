import SparseEngine.Mixed.Reservations

/-! `_evict_for_insert` answers `True` only when there is room for one more block and its snapshot
beside everything indexed and reserved. -/

namespace SparseEngine.PrefixCacheCoordinator

open PyM RadixPrefixIndex

variable {ι κ μ : Type} [LinearOrder ι]

def load (w : Nat × Nat → Nat) (c : PrefixCacheCoordinator ι κ μ) : Nat :=
  c.prefixCache.blocks.sumBy fun _ b => w (account b)

/-- Blocks with the accounts `gone` left the index. -/
structure Shrunk (gone : List (Nat × Nat)) (c c' : PrefixCacheCoordinator ι κ μ) : Prop where
  load : ∀ w, load w c' + (gone.map w).sum = load w c
  absent : ∀ id, c.prefixCache.blocks.get? id = none → c'.prefixCache.blocks.get? id = none
  pendingBlocks : c'.pendingBlocks = c.pendingBlocks
  pendingBlockIds : c'.pendingBlockIds = c.pendingBlockIds
  pendingRecurrentBytes : c'.pendingRecurrentBytes = c.pendingRecurrentBytes

section

variable {c c' c'' : PrefixCacheCoordinator ι κ μ} {gone gone' : List (Nat × Nat)}

theorem Shrunk.refl (c : PrefixCacheCoordinator ι κ μ) : Shrunk [] c c :=
  ⟨fun _ => rfl, fun _ h => h, rfl, rfl, rfl⟩

theorem Shrunk.trans (h : Shrunk gone c c') (h' : Shrunk gone' c' c'') :
    Shrunk (gone ++ gone') c c'' where
  load := fun w => by
    rw [List.map_append, List.sum_append, ← h.load w, ← h'.load w]
    omega
  absent := fun id hid => h'.absent id (h.absent id hid)
  pendingBlocks := h'.pendingBlocks.trans h.pendingBlocks
  pendingBlockIds := h'.pendingBlockIds.trans h.pendingBlockIds
  pendingRecurrentBytes := h'.pendingRecurrentBytes.trans h.pendingRecurrentBytes

theorem Released.shrunk {released : Finset Nat} (h : Released released c c') : Shrunk [] c c' where
  __ := h
  load := fun w => sumBy_accounts h.index.accounts (g := w) fun _ => rfl
  absent := fun _ hid => h.get_none hid

theorem Shrunk.size (h : Shrunk gone c c') :
    c'.prefixCache.blocks.size + gone.length = c.prefixCache.blocks.size := by
  have hload := h.load fun _ => 1
  unfold PrefixCacheCoordinator.load at hload
  rw [sumBy_one, sumBy_one] at hload
  simpa using hload

theorem Shrunk.indexedBytes (h : Shrunk gone c c') :
    indexedBytes c' + (gone.map Prod.fst).sum = indexedBytes c := h.load Prod.fst

omit [LinearOrder ι] in
theorem patched_pending (bs : List (MixedBlock ι κ)) (c : PrefixCacheCoordinator ι κ μ) :
    (patched bs c).pendingBlocks = c.pendingBlocks ∧
      (patched bs c).pendingBlockIds = c.pendingBlockIds ∧
      (patched bs c).pendingRecurrentBytes = c.pendingRecurrentBytes := by
  unfold patched patchRecurrentBytes
  simp only [modify_run]
  split
  · exact ⟨rfl, rfl, rfl⟩
  · split <;> exact ⟨rfl, rfl, rfl⟩

theorem Removals.shrunk {s' : RadixPrefixIndex ι (MixedPrefixBlockPayload κ)}
    {bs : List (MixedBlock ι κ)} (h : Removals c.prefixCache s' bs) :
    Shrunk (bs.map account) c (patched bs { c with prefixCache := s' }) := by
  obtain ⟨hblocks, hids, hbytes⟩ := patched_pending bs { c with prefixCache := s' }
  refine ⟨fun w => ?_, fun id hid => ?_, hblocks, hids, hbytes⟩
  · unfold PrefixCacheCoordinator.load
    rw [patched_prefixCache, List.map_map]
    exact Removals.sumBy h fun b => w (account b)
  · rw [patched_prefixCache]
    exact Removals.get_none h hid

end

section

variable {cfg : CoordinatorConfig ι κ μ} {c : PrefixCacheCoordinator ι κ μ}

def StillBalanced (cfg : CoordinatorConfig ι κ μ) (c c' : PrefixCacheCoordinator ι κ μ) : Prop :=
  Balanced cfg c' ∧ ∃ gone, Shrunk gone c c'

theorem StillBalanced.trans {c' c'' : PrefixCacheCoordinator ι κ μ} {gone : List (Nat × Nat)}
    (h' : StillBalanced cfg c' c'') (h : Shrunk gone c c') : StillBalanced cfg c c'' := by
  obtain ⟨hb, gone', hs⟩ := h'
  exact ⟨hb, _, h.trans hs⟩

theorem quiet_stillBalanced {α : Type} {m : CoordM ι κ μ α} (hm : Along Quiet m)
    (hb : Balanced cfg c) : wp m (fun _ c' => Balanced cfg c' ∧ Shrunk [] c c')
      (fun _ c' => StillBalanced cfg c c') c := by
  have hrel := hm c hb.wf
  have hkeep : Keeps (fun c' => Balanced cfg c' ∧ Shrunk [] c c') m c :=
    keeps_iff.mpr ⟨hb.undisturbed hrel, hrel.shrunk⟩
  exact wp_mono hkeep (fun _ _ h => h) fun _ _ h => ⟨h.1, _, h.2⟩

theorem onIndex_removals {m : IndexM ι (MixedPrefixBlockPayload κ) (List (MixedBlock ι κ))}
    {R : List (MixedBlock ι κ) → Prop}
    (hm : wp m (fun bs s' => Removals c.prefixCache s' bs ∧ R bs) (fun _ _ => False)
      c.prefixCache) :
    wp (onIndex m)
      (fun bs c' => ∃ s', c' = { c with prefixCache := s' } ∧ Removals c.prefixCache s' bs ∧ R bs)
      (fun _ _ => False) c := by
  unfold onIndex
  rw [wp_zoom]
  exact wp_mono hm (fun _ s' h => ⟨s', rfl, h⟩) fun _ _ h => h

theorem freeBlocks_removed {s' : RadixPrefixIndex ι (MixedPrefixBlockPayload κ)}
    {bs : List (MixedBlock ι κ)} (hb : Balanced cfg c) (h : Removals c.prefixCache s' bs) :
    wp (freeBlocks cfg bs)
      (fun _ c' => Balanced cfg c' ∧ Shrunk (bs.map account) c c')
      (fun _ c' => StillBalanced cfg c c') { c with prefixCache := s' } := by
  have hwf : WellFormed s' := h.steps.wf hb.wf
  have hown : OwnSnapshots bs { c with prefixCache := s' } := by
    intro b hmem d hd
    rw [Removals.not_mem h b hmem] at hd
    cases hd
  have hshrunk := Removals.shrunk h
  have ha : Accounts cfg { snapshots := bs.map snapshot ++ [], removed := bytesOf bs }
      { c with prefixCache := s' } := hb.removals {} h hwf
  refine wp_mono (ha.freeBlocks {} hown) (fun _ c' hc => ?_) (fun _ c' hc => ?_)
  · refine ⟨hc.1, ?_⟩
    simpa using hshrunk.trans hc.2.shrunk
  · obtain ⟨hbal, released, hrel⟩ := hc
    exact ⟨hbal, _, hshrunk.trans hrel.shrunk⟩

theorem evictUntilWeight_removals {needed : Int} {weight : MixedBlock ι κ → Int}
    (hb : Balanced cfg c) (hweight : ∀ b, ¬ weight b < 0) :
    wp (onIndex (evictUntilWeight needed weight))
      (fun bs c' => ∃ s', c' = { c with prefixCache := s' } ∧ Removals c.prefixCache s' bs ∧ True)
      (fun _ _ => False) c := by
  refine onIndex_removals ?_
  refine wp_mono (evictUntilWeight_spec hb.wf needed weight)
    (fun _ _ h => ⟨h.removals, trivial⟩) (fun _ _ h => ?_)
  obtain ⟨-, -, b, -, hneg⟩ := h
  exact hweight b hneg

def Weighs (blockWeight : MixedBlock ι κ → Int) (w : Nat × Nat → Nat) : Prop :=
  ∀ b, blockWeight b = w (account b)

omit [LinearOrder ι] in
theorem Weighs.sum {blockWeight : MixedBlock ι κ → Int} {w : Nat × Nat → Nat}
    (h : Weighs blockWeight w) (bs : List (MixedBlock ι κ)) :
    (bs.map blockWeight).sum = (((bs.map account).map w).sum : Nat) := by
  induction bs with
  | nil => rfl
  | cons b bs ih =>
    simp only [List.map_cons, List.sum_cons, Nat.cast_add]
    rw [ih, h b]

omit [LinearOrder ι] in
theorem weighs_one : Weighs (fun _ : MixedBlock ι κ => 1) fun _ => 1 := fun _ => rfl

omit [LinearOrder ι] in
theorem weighs_recurrentWeight : Weighs (recurrentWeight : MixedBlock ι κ → Int) Prod.fst :=
  fun _ => rfl

omit [LinearOrder ι] in
theorem Weighs.not_neg {blockWeight : MixedBlock ι κ → Int} {w : Nat × Nat → Nat}
    (h : Weighs blockWeight w) (b : MixedBlock ι κ) : ¬ blockWeight b < 0 := by
  rw [h b]
  omega

variable {blockWeight : MixedBlock ι κ → Int} {w : Nat × Nat → Nat}

theorem evictHost_spec (hw : Weighs blockWeight w) (hb : Balanced cfg c) (needed : Int) :
    wp (evictHost cfg needed blockWeight)
      (fun weight c' => Balanced cfg c' ∧
        ∃ gone, Shrunk gone c c' ∧ weight = ((gone.map w).sum : Nat))
      (fun _ c' => StillBalanced cfg c c') c := by
  have hevict : wp (evictHostUntilWeight needed blockWeight)
      (fun bs s' => Removals c.prefixCache s' bs ∧ True) (fun _ _ => False) c.prefixCache := by
    refine wp_mono (evictHostUntilWeight_spec hb.wf needed blockWeight)
      (fun _ _ h => ⟨h.removals, trivial⟩) (fun _ _ h => ?_)
    obtain ⟨-, -, b, -, hneg⟩ := h
    exact hw.not_neg b hneg
  simp only [evictHost, wp_bind]
  refine wp_mono (onIndex_removals hevict) (fun bs c₁ h₁ => ?_) fun _ _ h => h.elim
  obtain ⟨s', rfl, hrem, -⟩ := h₁
  refine wp_mono (freeBlocks_removed hb hrem) (fun _ c₂ h₂ => ?_) fun _ _ h => h
  exact ⟨h₂.1, _, h₂.2, hw.sum bs⟩

theorem demote_spec (hb : Balanced cfg c) (needed : Int) (weight : MixedBlock ι κ → Int) {β : Type}
    {k : List (MixedBlock ι κ) → CoordM ι κ μ β} {Q : β → PrefixCacheCoordinator ι κ μ → Prop}
    (hk : ∀ demoted c', Balanced cfg c' → Shrunk [] c c' →
      wp (k demoted) Q (fun _ c'' => StillBalanced cfg c c'') c') :
    wp (do
      let demoted ← onIndex (demoteDeviceUntilWeight needed weight)
      PyM.forEach (freeDeviceBlock cfg) demoted
      k demoted) Q (fun _ c' => StillBalanced cfg c c') c := by
  rw [wp_bind]
  refine wp_mono (quiet_stillBalanced (quiet_onIndex (demoteDeviceUntilWeight_quiet needed weight))
    hb) (fun demoted c₁ h₁ => ?_) fun _ _ h => h
  rw [wp_bind]
  refine wp_mono (quiet_stillBalanced (along_forEach fun b _ => tolerates_quiet.freeDeviceBlock b) h₁.1)
    (fun _ c₂ h₂ => hk demoted c₂ h₂.1 (h₁.2.trans h₂.2)) fun _ _ h => h.trans h₁.2

theorem evictHostLoop_spec (hw : Weighs blockWeight w) (needed : Int) :
    ∀ (fuel : Nat) (freed : Int) (c : PrefixCacheCoordinator ι κ μ), Balanced cfg c →
    wp (evictHostLoop cfg needed blockWeight fuel freed)
      (fun enough c' => Balanced cfg c' ∧ ∃ gone, Shrunk gone c c' ∧
        (enough = true → needed ≤ freed + ((gone.map w).sum : Nat)))
      (fun _ c' => StillBalanced cfg c c') c
  | 0, _, c, hb => ⟨hb, [], .refl c⟩
  | fuel + 1, freed, c, hb => by
    rw [evictHostLoop, wp_ite]
    split
    · next hdone => exact ⟨hb, [], .refl c, fun _ => by simpa using hdone⟩
    · rw [wp_bind]
      refine wp_mono (quiet_stillBalanced tolerates_quiet.pollOffload hb) (fun _ c₁ h₁ => ?_) fun _ _ h => h
      rw [wp_bind]
      refine wp_mono (evictHost_spec hw h₁.1 _) (fun host c₂ h₂ => ?_) fun _ _ h => h.trans h₁.2
      obtain ⟨hb₂, gone₂, hs₂, hhost⟩ := h₂
      have hs₂ := h₁.2.trans hs₂
      rw [wp_ite]
      split
      · next hdone => exact ⟨hb₂, _, hs₂, fun _ => by rw [hhost] at hdone; exact hdone⟩
      · refine wp_mono (demote_spec hb₂ _ _ (Q := fun enough c' => Balanced cfg c' ∧
            ∃ gone, Shrunk gone c₂ c' ∧
              (enough = true → needed ≤ freed + host + ((gone.map w).sum : Nat)))
            fun demoted c₃ hb₃ hs₃ => ?_)
          (fun enough c' h => ?_) fun _ _ h => h.trans hs₂
        · rw [wp_bind]
          refine wp_mono (evictHost_spec hw hb₃ _) (fun newly c₄ h₄ => ?_) fun _ _ h => h.trans hs₃
          obtain ⟨hb₄, gone₄, hs₄, hnewly⟩ := h₄
          have hs₄ := hs₃.trans hs₄
          rw [wp_ite]
          split
          · next hdone => exact ⟨hb₄, _, hs₄, fun _ => by rw [hnewly] at hdone; exact hdone⟩
          · rw [wp_bind]
            refine wp_mono (quiet_stillBalanced tolerates_quiet.waitOldestD2h hb₄) (fun waited c₅ h₅ => ?_)
              fun _ _ h => h.trans hs₄
            have hs₅ := hs₄.trans h₅.2
            rw [wp_ite]
            split
            · refine wp_mono (evictHostLoop_spec hw needed fuel _ c₅ h₅.1) (fun enough c₆ h₆ => ?_)
                fun _ _ h => h.trans hs₅
              obtain ⟨hb₆, gone₆, hs₆, henough⟩ := h₆
              refine ⟨hb₆, _, hs₅.trans hs₆, fun he => ?_⟩
              have := henough he
              rw [hnewly] at this
              simp only [List.map_append, List.sum_append, List.nil_append, List.append_nil,
                Nat.cast_add]
              omega
            · exact ⟨h₅.1, _, hs₅, fun h => absurd h (by decide)⟩
        · obtain ⟨hb', gone', hs', henough⟩ := h
          refine ⟨hb', _, hs₂.trans hs', fun he => ?_⟩
          have := henough he
          rw [hhost] at this
          simp only [List.map_append, List.sum_append, List.nil_append, Nat.cast_add]
          omega

theorem evictHostBlocks_spec (hb : Balanced cfg c) (blocks bytes : Int) :
    wp (evictHostBlocks cfg blocks bytes)
      (fun enough c' => Balanced cfg c' ∧ ∃ gone, Shrunk gone c c' ∧ (enough = true →
        if bytes = 0 then blocks ≤ gone.length else bytes ≤ ((gone.map Prod.fst).sum : Nat)))
      (fun _ c' => StillBalanced cfg c c') c := by
  simp only [evictHostBlocks, wp_bind, wp_raiseIf, wp_get]
  refine ⟨fun _ => ⟨hb, [], .refl c⟩, fun _ => ?_⟩
  rw [wp_ite]
  split
  · refine wp_mono (evictHostLoop_spec weighs_one blocks _ 0 c hb) (fun _ c' h => ?_)
      fun _ _ h => h
    obtain ⟨hb', gone, hs, henough⟩ := h
    exact ⟨hb', gone, hs, fun he => by simpa using henough he⟩
  · refine wp_mono (evictHostLoop_spec weighs_recurrentWeight bytes _ 0 c hb) (fun _ c' h => ?_)
      fun _ _ h => h
    obtain ⟨hb', gone, hs, henough⟩ := h
    exact ⟨hb', gone, hs, fun he => by simpa using henough he⟩

end

section

variable {cfg : CoordinatorConfig ι κ μ} {c c' : PrefixCacheCoordinator ι κ μ}

/-- There is room for `n` more blocks. -/
def BlockRoom (cfg : CoordinatorConfig ι κ μ) (n : Int) (c : PrefixCacheCoordinator ι κ μ) : Prop :=
  ∀ m, cfg.index.maxBlocks = some m →
    (c.prefixCache.blocks.size : Int) + c.pendingBlockIds.card + n ≤ m

/-- There is room for `n` more bytes. -/
def ByteRoom (cfg : CoordinatorConfig ι κ μ) (n : Int) (c : PrefixCacheCoordinator ι κ μ) : Prop :=
  (indexedBytes c : Int) + c.pendingRecurrentBytes + n ≤ cfg.maxRecurrentBytes

theorem BlockRoom.shrunk {n : Int} {gone : List (Nat × Nat)} (h : BlockRoom cfg n c)
    (hs : Shrunk gone c c') : BlockRoom cfg n c' := by
  intro m hm
  have hroom := h m hm
  have hsize := hs.size
  rw [hs.pendingBlockIds]
  omega

theorem liveRecurrentBytes_spec (hb : Balanced cfg c) :
    wp liveRecurrentBytes
      (fun total c' => total = indexedBytes c ∧ Balanced cfg c' ∧ Shrunk [] c c')
      (fun _ _ => False) c := by
  have hsum : (c.prefixCache.blocks.values.map fun b => (b.payload.recurrentBytes : Int)).sum =
      indexedBytes c := by
    rw [sum_bytesOf, bytesOf, Dict.values, List.map_map]
    rfl
  have hscan : Balanced cfg { c with
      recurrentBytesCache := some ⟨c.prefixCache.epochs.insert, c.prefixCache.epochs.remove,
        (c.prefixCache.blocks.values.map fun b => (b.payload.recurrentBytes : Int)).sum⟩ } :=
    { hb with
      cache := fun cached hc => by
        cases hc
        exact ⟨le_rfl, le_rfl, fun _ _ => hsum⟩ }
  simp only [liveRecurrentBytes, wp_bind, wp_get]
  split
  · exact ⟨hsum, hscan, fun _ => rfl, fun _ h => h, rfl, rfl, rfl⟩
  · next cached hc =>
    split
    · next hmatch =>
      obtain ⟨-, -, htotal⟩ := hb.cache cached hc
      exact ⟨htotal hmatch.1 hmatch.2, hb, .refl c⟩
    · exact ⟨hsum, hscan, fun _ => rfl, fun _ h => h, rfl, rfl, rfl⟩

theorem evictLeaves_spec {needed : Int} {weight : MixedBlock ι κ → Int} {w : Nat × Nat → Nat}
    (hw : Weighs weight w) (hb : Balanced cfg c) {β : Type}
    {k : List (MixedBlock ι κ) → CoordM ι κ μ β} {Q : β → PrefixCacheCoordinator ι κ μ → Prop}
    (hk : ∀ bs c', Balanced cfg c' → Shrunk (bs.map account) c c' →
      wp (k bs) Q (fun _ c'' => StillBalanced cfg c c'') c') :
    wp (do
      let evicted ← onIndex (evictUntilWeight needed weight)
      freeBlocks cfg evicted
      k evicted) Q (fun _ c' => StillBalanced cfg c c') c := by
  rw [wp_bind]
  refine wp_mono (evictUntilWeight_removals hb hw.not_neg) (fun bs c₁ h₁ => ?_)
    fun _ _ h => h.elim
  obtain ⟨s', rfl, hrem, -⟩ := h₁
  rw [wp_bind]
  exact wp_mono (freeBlocks_removed hb hrem) (fun _ c₂ h₂ => hk bs c₂ h₂.1 h₂.2) fun _ _ h => h

theorem evictForBlocks_spec (hb : Balanced cfg c) (needed : Int) :
    wp (evictForBlocks cfg needed)
      (fun room c' => StillBalanced cfg c c' ∧ (room = true → BlockRoom cfg needed c'))
      (fun _ c' => StillBalanced cfg c c') c := by
  have hstart : StillBalanced cfg c c := ⟨hb, [], .refl c⟩
  unfold evictForBlocks
  split
  · next hnone => exact ⟨hstart, fun _ m hm => by rw [hnone] at hm; cases hm⟩
  · next max hmax =>
    -- The room after `gone` left.
    have hroom : ∀ (gone : List (Nat × Nat)) c', Shrunk gone c c' →
        (c.prefixCache.blocks.size : Int) + c.pendingBlockIds.card + needed - max ≤ gone.length →
        BlockRoom cfg needed c' := by
      intro gone c' hs hover m hm
      rw [hmax] at hm
      cases hm
      have hsize := hs.size
      rw [hs.pendingBlockIds]
      omega
    rw [wp_bind, wp_get, wp_ite]
    split
    · next hfits => exact ⟨hstart, fun _ => hroom [] c (.refl c) hfits⟩
    · rw [wp_ite]
      split
      · refine wp_mono (evictHostBlocks_spec hb _ 0) (fun enough c' h => ?_) fun _ _ h => h
        obtain ⟨hb', gone, hs, henough⟩ := h
        exact ⟨⟨hb', gone, hs⟩, fun he => hroom gone c' hs (by simpa using henough he)⟩
      · refine evictLeaves_spec weighs_one hb fun bs c' hb' hs => ?_
        refine ⟨⟨hb', _, hs⟩, fun he => hroom _ c' hs ?_⟩
        have hlen : (bs.length : Int) = _ := of_decide_eq_true he
        rw [List.length_map, hlen]

theorem evictForBytes_spec (hb : Balanced cfg c) (incoming : Int) :
    wp (evictForBytes cfg incoming)
      (fun room c' => Balanced cfg c' ∧ ∃ gone, Shrunk gone c c' ∧
        (room = true → ByteRoom cfg incoming c'))
      (fun _ c' => StillBalanced cfg c c') c := by
  unfold evictForBytes
  rw [wp_bind]
  refine wp_mono (liveRecurrentBytes_spec hb) (fun live c₁ h₁ => ?_) fun _ _ h => h.elim
  obtain ⟨rfl, hb₁, hs₁⟩ := h₁
  have hbytes : indexedBytes c₁ = indexedBytes c := by simpa using hs₁.indexedBytes
  have hroom : ∀ (gone : List (Nat × Nat)) c', Shrunk gone c₁ c' →
      (indexedBytes c : Int) + c₁.pendingRecurrentBytes + incoming - cfg.maxRecurrentBytes ≤
        ((gone.map Prod.fst).sum : Nat) → ByteRoom cfg incoming c' := by
    intro gone c' hs hmissing
    have hsum := hs.indexedBytes
    unfold ByteRoom
    rw [hs.pendingRecurrentBytes]
    omega
  rw [wp_bind, wp_get, wp_ite]
  split
  · next hfits => exact ⟨hb₁, [], hs₁, fun _ => hroom [] c₁ (.refl c₁) hfits⟩
  · next hmissing =>
    rw [wp_ite]
    split
    · refine wp_mono (evictHostBlocks_spec hb₁ 0 _) (fun enough c' h => ?_) fun _ _ h => h.trans hs₁
      obtain ⟨hb', gone, hs, henough⟩ := h
      refine ⟨hb', _, hs₁.trans hs, fun he => hroom gone c' hs ?_⟩
      have hgone := henough he
      rw [if_neg (by omega)] at hgone
      exact hgone
    · refine wp_mono (evictLeaves_spec weighs_recurrentWeight hb₁ (Q := fun room c' =>
          Balanced cfg c' ∧ ∃ gone, Shrunk gone c₁ c' ∧ (room = true → ByteRoom cfg incoming c'))
          fun bs c' hb' hs => ?_) (fun room c' h => ?_) fun _ _ h => h.trans hs₁
      · refine ⟨hb', _, hs, fun he => hroom _ c' hs ?_⟩
        rw [← weighs_recurrentWeight.sum]
        exact of_decide_eq_true he
      · obtain ⟨hb', gone, hs, henough⟩ := h
        exact ⟨hb', _, hs₁.trans hs, henough⟩

theorem evictForInsert_spec (hb : Balanced cfg c) (needed incoming : Int) :
    wp (evictForInsert cfg needed incoming)
      (fun room c' => StillBalanced cfg c c' ∧
        (room = true → BlockRoom cfg needed c' ∧ ByteRoom cfg incoming c'))
      (fun _ c' => StillBalanced cfg c c') c := by
  have hstart : StillBalanced cfg c c := ⟨hb, [], .refl c⟩
  simp only [evictForInsert, wp_bind, wp_raiseIf]
  refine ⟨fun _ => hstart, fun _ => ⟨fun _ => hstart, fun _ => ?_⟩⟩
  refine wp_mono (evictForBlocks_spec hb needed) (fun room c₁ h₁ => ?_) fun _ _ h => h
  obtain ⟨⟨hb₁, gone₁, hs₁⟩, hroom⟩ := h₁
  rw [wp_ite]
  split
  · next hr =>
    refine wp_mono (evictForBytes_spec hb₁ incoming) (fun room' c₂ h₂ => ?_)
      fun _ _ h => h.trans hs₁
    obtain ⟨hb₂, gone₂, hs₂, hbytes⟩ := h₂
    exact ⟨⟨hb₂, _, hs₁.trans hs₂⟩, fun hr' => ⟨(hroom hr).shrunk hs₂, hbytes hr'⟩⟩
  · exact ⟨⟨hb₁, gone₁, hs₁⟩, fun h => absurd h (by decide)⟩

theorem demoteForSlots_quiet (needed : Nat) : ∀ fuel freed : Nat,
    Along Quiet (demoteForSlots cfg needed fuel freed)
  | 0, _ => along_raise _
  | fuel + 1, freed => by
    unfold demoteForSlots
    split
    · exact along_pure _
    · refine along_bind tolerates_quiet.pollOffload fun _ => ?_
      refine along_bind (quiet_onIndex (demoteDeviceUntilWeight_quiet _ _)) fun demoted => ?_
      refine along_bind (along_forEach fun b _ => tolerates_quiet.freeDeviceBlock b) fun _ => ?_
      dsimp only
      split
      · exact along_pure _
      · refine along_bind tolerates_quiet.waitOldestD2h fun waited => ?_
        split
        · exact demoteForSlots_quiet needed fuel _
        · exact along_pure _

theorem evictForSlots_spec (hb : Balanced cfg c) (neededSlots : Nat) :
    wp (evictForSlots cfg neededSlots) (fun _ c' => StillBalanced cfg c c')
      (fun _ c' => StillBalanced cfg c c') c := by
  have hstart : StillBalanced cfg c c := ⟨hb, [], .refl c⟩
  unfold evictForSlots
  rw [wp_ite]
  split
  · exact hstart
  · rw [wp_ite]
    split
    · simp only [wp_bind, wp_get]
      refine wp_mono (quiet_stillBalanced (demoteForSlots_quiet _ _ _) hb) (fun _ c₁ h₁ => ?_)
        fun _ _ h => h
      rw [wp_raiseIf]
      exact ⟨fun _ => ⟨h₁.1, _, h₁.2⟩, fun _ => ⟨h₁.1, _, h₁.2⟩⟩
    · refine evictLeaves_spec weighs_one hb fun bs c' hb' hs => ?_
      simp only [wp_bind, wp_pure, wp_raiseIf]
      exact ⟨fun _ => ⟨hb', _, hs⟩, fun _ => ⟨hb', _, hs⟩⟩

end

end SparseEngine.PrefixCacheCoordinator
