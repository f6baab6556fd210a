import SparseEngine.DeltaKV.Row
import Mathlib.Tactic.Ring

/-! The sparse layers and the full layers of a row are treated apart. -/

namespace SparseEngine.DeltaKV

open Batches List Finset

variable {cfg : Config} {r : Row} {len old : Nat}

theorem estimateLatent_eq (hrecent : 0 < cfg.recentKeepTokens) (totalLen : Nat) :
    estimateDeltakvLatentSlotsForTotalLen cfg totalLen =
      finalized cfg.recentKeepTokens cfg.recentKeepTokens (totalLen - cfg.sinkKeepTokens) := by
  simp only [estimateDeltakvLatentSlotsForTotalLen, if_pos hrecent]
  split
  next short => exact (finalized_eq_zero (by omega)).symm
  next => rfl

theorem estimateLatent_of_recent_eq_zero (hrecent : cfg.recentKeepTokens = 0) (totalLen : Nat) :
    estimateDeltakvLatentSlotsForTotalLen cfg totalLen = totalLen - cfg.sinkKeepTokens := by
  simp only [estimateDeltakvLatentSlotsForTotalLen, hrecent, Nat.lt_irrefl, if_false]
  split <;> omega

theorem estimateLatent_le (cfg : Config) (totalLen : Nat) :
    estimateDeltakvLatentSlotsForTotalLen cfg totalLen ≤ totalLen - cfg.sinkKeepTokens := by
  rcases Nat.eq_zero_or_pos cfg.recentKeepTokens with hrecent | hrecent
  · exact (estimateLatent_of_recent_eq_zero hrecent totalLen).le
  · exact estimateLatent_eq hrecent totalLen ▸ finalized_le_self

theorem estimateLatent_mono (cfg : Config) {n m : Nat} (h : n ≤ m) :
    estimateDeltakvLatentSlotsForTotalLen cfg n ≤ estimateDeltakvLatentSlotsForTotalLen cfg m := by
  rcases Nat.eq_zero_or_pos cfg.recentKeepTokens with hrecent | hrecent
  · simp only [estimateLatent_of_recent_eq_zero hrecent]
    omega
  · simp only [estimateLatent_eq hrecent]
    exact finalized_mono (Nat.sub_le_sub_right h _)

theorem estimateBlocks_eq (cfg : Config) (totalLen : Nat) :
    estimateFullLayerKiviBlocksForTotalLen cfg totalLen =
      (totalLen - cfg.sinkKeepTokens - cfg.residualLength) / cfg.groupSize := by
  simp only [estimateFullLayerKiviBlocksForTotalLen]
  congr 2
  omega

theorem estimateBlocks_mul (cfg : Config) (totalLen : Nat) :
    cfg.groupSize * estimateFullLayerKiviBlocksForTotalLen cfg totalLen =
      finalized cfg.residualLength cfg.groupSize (totalLen - cfg.sinkKeepTokens) := by
  rw [estimateBlocks_eq, Nat.mul_comm]
  rfl

theorem estimateBlocks_mono (cfg : Config) {n m : Nat} (h : n ≤ m) :
    estimateFullLayerKiviBlocksForTotalLen cfg n ≤
      estimateFullLayerKiviBlocksForTotalLen cfg m := by
  simp only [estimateBlocks_eq]
  exact Nat.div_le_div_right (by omega)

theorem mem_centerPositions {start stop baseStep p : Nat} (hstep : 0 < baseStep)
    (h : p ∈ centerPositions start stop baseStep) : start ≤ p ∧ p < stop := by
  obtain ⟨i, hi, rfl⟩ := mem_range'.mp h
  have bound : (i + 1) * baseStep ≤ stop - start + baseStep - 1 :=
    (Nat.le_div_iff_mul_le hstep).mp hi
  have expand : (i + 1) * baseStep = baseStep * i + baseStep := by ring
  omega

theorem start_mem_centerPositions {start stop baseStep : Nat} (hstep : 0 < baseStep)
    (h : start < stop) : start ∈ centerPositions start stop baseStep := by
  refine mem_range'.mpr ⟨0, Nat.div_pos (by omega) hstep, ?_⟩
  simp

def Clusters (cfg : Config) : Prop :=
  cfg.clusterMetric ≠ .other ∧ 0 < cfg.deltakvNeighborCount

theorem clusterCompress_ok (h : Clusters cfg) {centers : Nat} (pos : 0 < centers) :
    clusterCompress cfg centers = .ok () := by
  have some : min cfg.deltakvNeighborCount centers ≠ 0 := by
    have := h.2
    omega
  simp only [clusterCompress, if_neg h.1, if_neg some]

/-- The sparse maps of a row of which the first `len` positions were stored. -/
structure SparseKept (cfg : Config) (r : Row) (len : Nat) : Prop where
  stored : ∀ p < len, p < cfg.sinkKeepTokens ∨ cfg.sinkKeepTokens + r.compressedLen ≤ p →
    p ∈ r.rawSlots
  live : ∀ centers, r.centerSlots = some centers → ∀ p ∈ centers,
    p ∈ r.rawSlots ∧ p < cfg.sinkKeepTokens + r.compressedLen
  latent : r.latentSlots =
    Finset.Ico cfg.sinkKeepTokens (cfg.sinkKeepTokens + r.compressedLen)

theorem SparseKept.append (h : SparseKept cfg r r.seqLen) (size : Nat) :
    SparseKept cfg (r.append size) (r.seqLen + size) where
  stored p hp hsides := by
    rcases Nat.lt_or_ge p r.seqLen with old | new
    · exact mem_union_left _ (h.stored p old hsides)
    · exact mem_union_right _ (Finset.mem_Ico.mpr ⟨new, hp⟩)
  live centers hcenters p hp :=
    (h.live centers hcenters p hp).imp_left fun raw => mem_union_left _ raw
  latent := h.latent

theorem SparseKept.congr {r' : Row} (h : SparseKept cfg r len) (raw : r'.rawSlots = r.rawSlots)
    (latent : r'.latentSlots = r.latentSlots) (centers : r'.centerSlots = r.centerSlots)
    (compressed : r'.compressedLen = r.compressedLen) : SparseKept cfg r' len where
  stored := raw ▸ compressed ▸ h.stored
  live := raw ▸ compressed ▸ centers ▸ h.live
  latent := latent ▸ compressed ▸ h.latent

def Quiet (cfg : Config) (len compressed : Nat) : Prop :=
  len < cfg.sinkKeepTokens + compressed + max 1 (2 * cfg.recentKeepTokens)

structure SparseEvicted (cfg : Config) (r r' : Row) : Prop where
  kept : SparseKept cfg r' r.seqLen
  compressed : r'.compressedLen = estimateDeltakvLatentSlotsForTotalLen cfg r.seqLen
  raw : r'.rawSlots ⊆ r.rawSlots
  seqLen : r'.seqLen = r.seqLen
  full : r'.fullSlots = r.fullSlots
  blocks : r'.kiviBlocks = r.kiviBlocks
  quantized : r'.quantizedLen = r.quantizedLen
  plan : r'.fullPrefillPlan = r.fullPrefillPlan

theorem compressed_step (hrecent : 0 < cfg.recentKeepTokens)
    (hold : r.compressedLen = estimateDeltakvLatentSlotsForTotalLen cfg old) (h : old ≤ r.seqLen) :
    r.compressedLen +
        (r.seqLen - (cfg.sinkKeepTokens + r.compressedLen) - cfg.recentKeepTokens) /
          cfg.recentKeepTokens * cfg.recentKeepTokens =
      estimateDeltakvLatentSlotsForTotalLen cfg r.seqLen := by
  rw [estimateLatent_eq hrecent] at hold ⊢
  rw [← Nat.sub_sub, hold]
  exact finalized_step _ _ (Nat.sub_le_sub_right h _)

theorem SparseEvicted.rfl (kept : SparseKept cfg r r.seqLen)
    (same : r.compressedLen = estimateDeltakvLatentSlotsForTotalLen cfg r.seqLen) :
    SparseEvicted cfg r r :=
  ⟨kept, same, subset_rfl, Eq.refl _, Eq.refl _, Eq.refl _, Eq.refl _, Eq.refl _⟩

theorem SparseKept.evict (h : SparseKept cfg r r.seqLen) {evictLen : Nat}
    {newCenters : Finset Nat}
    (inside : newCenters ⊆ Finset.Ico (cfg.sinkKeepTokens + r.compressedLen)
      (cfg.sinkKeepTokens + r.compressedLen + evictLen))
    (room : cfg.sinkKeepTokens + r.compressedLen + evictLen ≤ r.seqLen) :
    SparseKept cfg
      { r with
        latentSlots := r.latentSlots ∪ Finset.Ico (cfg.sinkKeepTokens + r.compressedLen)
          (cfg.sinkKeepTokens + r.compressedLen + evictLen)
        centerSlots := some (r.centerSlots.getD (Finset.range cfg.sinkKeepTokens) ∪ newCenters)
        rawSlots := r.rawSlots \ (Finset.Ico (cfg.sinkKeepTokens + r.compressedLen)
          (cfg.sinkKeepTokens + r.compressedLen + evictLen) \ newCenters)
        compressedLen := r.compressedLen + evictLen } r.seqLen where
  stored p hp hsides := by
    have outside : p < cfg.sinkKeepTokens ∨
        cfg.sinkKeepTokens + r.compressedLen + evictLen ≤ p := by
      simpa [Nat.add_assoc] using hsides
    refine Finset.mem_sdiff.mpr ⟨h.stored p hp (by omega), fun mem => ?_⟩
    have block := Finset.mem_Ico.mp (Finset.mem_sdiff.mp mem).1
    omega
  live centers hcenters p hp := by
    obtain rfl := Option.some.inj hcenters
    show p ∈ r.rawSlots \ _ ∧ p < cfg.sinkKeepTokens + (r.compressedLen + evictLen)
    rcases Finset.mem_union.mp hp with existing | new
    · -- Earlier centres lie before the block.
      have before : p ∈ r.rawSlots ∧ p < cfg.sinkKeepTokens + r.compressedLen := by
        cases hc : r.centerSlots with
        | some centers => exact h.live centers hc p (by simpa [hc] using existing)
        | none =>
          have sink : p < cfg.sinkKeepTokens := by simpa [hc] using existing
          exact ⟨h.stored p (by omega) (Or.inl sink), by omega⟩
      refine ⟨Finset.mem_sdiff.mpr ⟨before.1, fun mem => ?_⟩, by omega⟩
      have block := Finset.mem_Ico.mp (Finset.mem_sdiff.mp mem).1
      omega
    · have block := Finset.mem_Ico.mp (inside new)
      refine ⟨Finset.mem_sdiff.mpr ⟨h.stored p (by omega) (Or.inr block.1), fun mem => ?_⟩,
        by omega⟩
      exact (Finset.mem_sdiff.mp mem).2 new
  latent := by
    show r.latentSlots ∪ _ = _
    rw [h.latent, ← Nat.add_assoc]
    exact Ico_union_Ico_eq_Ico (Nat.le_add_right _ _) (Nat.le_add_right _ _)

theorem existing_subset (h : SparseKept cfg r r.seqLen) (hsink : cfg.sinkKeepTokens ≤ r.seqLen) :
    r.centerSlots.getD (Finset.range cfg.sinkKeepTokens) ⊆ r.rawSlots := by
  intro p hp
  cases hc : r.centerSlots with
  | some centers => exact (h.live centers hc p (by simpa [hc] using hp)).1
  | none =>
    have sink : p < cfg.sinkKeepTokens := by simpa [hc] using hp
    exact h.stored p (by omega) (Or.inl sink)

theorem sparseEvict_spec (latentFree : Nat) (h : SparseKept cfg r r.seqLen)
    (hold : r.compressedLen = estimateDeltakvLatentSlotsForTotalLen cfg old) (hlen : old ≤ r.seqLen)
    (spared : 0 < cfg.recentKeepTokens ∧ Clusters cfg ∨ Quiet cfg r.seqLen r.compressedLen) :
    (latentFree < estimateDeltakvLatentSlotsForTotalLen cfg r.seqLen - r.compressedLen ∧
      sparseEvict cfg latentFree r = .error .outOfLatentSlots) ∨
    ∃ r', sparseEvict cfg latentFree r = .ok r' ∧ SparseEvicted cfg r r' := by
  have stays : r.compressedLen ≤ estimateDeltakvLatentSlotsForTotalLen cfg r.seqLen :=
    hold ▸ estimateLatent_mono cfg hlen
  have bound := estimateLatent_le cfg r.seqLen
  simp only [sparseEvict]
  by_cases short : r.seqLen - (cfg.sinkKeepTokens + r.compressedLen) ≤ cfg.recentKeepTokens
  · rw [if_pos short]
    refine Or.inr ⟨r, rfl, SparseEvicted.rfl h ?_⟩
    rcases Nat.eq_zero_or_pos cfg.recentKeepTokens with hrecent | hrecent
    · omega
    · have step := compressed_step hrecent hold hlen
      rwa [Nat.sub_eq_zero_of_le short, Nat.zero_div, Nat.zero_mul, Nat.add_zero] at step
  · rw [if_neg short]
    have hrecent : 0 < cfg.recentKeepTokens := by
      rcases spared with ⟨hrecent, -⟩ | quiet
      · exact hrecent
      · unfold Quiet at quiet
        omega
    rw [if_neg (by omega : ¬ cfg.recentKeepTokens = 0)]
    have step := compressed_step hrecent hold hlen
    have evicts := Nat.div_mul_le_self
      (r.seqLen - (cfg.sinkKeepTokens + r.compressedLen) - cfg.recentKeepTokens)
      cfg.recentKeepTokens
    generalize hEvict :
      (r.seqLen - (cfg.sinkKeepTokens + r.compressedLen) - cfg.recentKeepTokens) /
        cfg.recentKeepTokens * cfg.recentKeepTokens = evictLen at step evicts ⊢
    by_cases none : evictLen = 0
    · rw [if_pos none]
      exact Or.inr ⟨r, rfl, SparseEvicted.rfl h (by omega)⟩
    rw [if_neg none]
    have room : cfg.sinkKeepTokens + r.compressedLen + evictLen ≤ r.seqLen := by omega
    have block : Finset.Ico (cfg.sinkKeepTokens + r.compressedLen)
        (cfg.sinkKeepTokens + r.compressedLen + evictLen) ⊆ r.rawSlots := by
      intro p hp
      have mem := Finset.mem_Ico.mp hp
      exact h.stored p (by omega) (Or.inr mem.1)
    rw [if_neg (not_not.mpr block)]
    by_cases free : latentFree < evictLen
    · exact Or.inl ⟨by omega, if_pos free⟩
    rw [if_neg free, if_neg (not_not.mpr (existing_subset h (by omega)))]
    -- A block that leaves is at least `recent` long, so the row was not quiet.
    have clusters : Clusters cfg := by
      rcases spared with ⟨-, clusters⟩ | quiet
      · exact clusters
      · refine absurd ?_ none
        unfold Quiet at quiet
        rw [← hEvict, Nat.div_eq_of_lt (by omega), Nat.zero_mul]
    have first := start_mem_centerPositions cfg.clusterStep_pos
      (by omega : cfg.sinkKeepTokens + r.compressedLen <
        cfg.sinkKeepTokens + r.compressedLen + evictLen)
    have nonempty := card_pos.mpr ⟨_, mem_toFinset.mpr first⟩
    rw [clusterCompress_ok clusters (Nat.add_pos_right _ nonempty)]
    refine Or.inr ⟨_, rfl, ?_, step, sdiff_subset, rfl, rfl, rfl, rfl, rfl⟩
    refine h.evict (fun p hp => ?_) room
    exact Finset.mem_Ico.mpr (mem_centerPositions cfg.clusterStep_pos (mem_toFinset.mp hp))

/-- The full maps of a row of which the first `len` positions were stored and the first `k` groups
after the sink are packed. -/
structure FullKept (cfg : Config) (r : Row) (len k : Nat) : Prop where
  plain : cfg.fullLayerKiviEnabled = false →
    r.kiviBlocks = ∅ ∧ r.fullSlots = Finset.range r.seqLen
  quantized : cfg.fullLayerKiviEnabled = true →
    max cfg.sinkKeepTokens r.quantizedLen = cfg.sinkKeepTokens + cfg.groupSize * k
  full : cfg.fullLayerKiviEnabled = true → r.fullSlots = Finset.range len \
    Finset.Ico cfg.sinkKeepTokens (cfg.sinkKeepTokens + cfg.groupSize * k)
  blocks : cfg.fullLayerKiviEnabled = true → r.kiviBlocks =
    (Finset.range k).image fun i => cfg.sinkKeepTokens + cfg.groupSize * i
  room : k ≠ 0 → cfg.sinkKeepTokens + cfg.groupSize * k ≤ len

theorem FullKept.congr {r' : Row} {k : Nat} (h : FullKept cfg r len k)
    (seqLen : r'.seqLen = r.seqLen) (full : r'.fullSlots = r.fullSlots)
    (blocks : r'.kiviBlocks = r.kiviBlocks) (quantized : r'.quantizedLen = r.quantizedLen) :
    FullKept cfg r' len k where
  plain := blocks ▸ full ▸ seqLen ▸ h.plain
  quantized := quantized ▸ h.quantized
  full := full ▸ h.full
  blocks := blocks ▸ h.blocks
  room := h.room

theorem FullKept.append {k : Nat} (h : FullKept cfg r r.seqLen k) (size : Nat) :
    FullKept cfg (r.append size) (r.seqLen + size) k where
  __ := h
  plain hkivi := by
    refine ⟨(h.plain hkivi).1, ?_⟩
    show r.fullSlots ∪ Finset.Ico _ _ = Finset.range (r.seqLen + size)
    rw [(h.plain hkivi).2, range_eq_Ico, range_eq_Ico]
    exact Ico_union_Ico_eq_Ico (Nat.zero_le _) (Nat.le_add_right _ _)
  full hkivi := by
    show r.fullSlots ∪ Finset.Ico _ _ = _
    rw [h.full hkivi]
    ext p
    by_cases none : k = 0
    · simp only [none, Nat.mul_zero, Nat.add_zero, Finset.Ico_self, Finset.sdiff_empty,
        Finset.mem_union, Finset.mem_range, Finset.mem_Ico]
      omega
    · have room := h.room none
      simp only [Finset.mem_union, Finset.mem_sdiff, Finset.mem_range, Finset.mem_Ico]
      omega
  room none := (h.room none).trans (Nat.le_add_right _ _)

structure FullEvicted (cfg : Config) (r r' : Row) : Prop where
  kept : FullKept cfg r' r.seqLen (estimateFullLayerKiviBlocksForTotalLen cfg r.seqLen)
  full : r'.fullSlots ⊆ r.fullSlots
  seqLen : r'.seqLen = r.seqLen
  compressed : r'.compressedLen = r.compressedLen
  raw : r'.rawSlots = r.rawSlots
  latent : r'.latentSlots = r.latentSlots
  centers : r'.centerSlots = r.centerSlots
  plan : r'.fullPrefillPlan = r.fullPrefillPlan

theorem FullEvicted.rfl
    (kept : FullKept cfg r r.seqLen (estimateFullLayerKiviBlocksForTotalLen cfg r.seqLen)) :
    FullEvicted cfg r r :=
  ⟨kept, subset_rfl, Eq.refl _, Eq.refl _, Eq.refl _, Eq.refl _, Eq.refl _, Eq.refl _⟩

theorem estimateBlocks_room (cfg : Config) (totalLen : Nat)
    (some : estimateFullLayerKiviBlocksForTotalLen cfg totalLen ≠ 0) :
    cfg.sinkKeepTokens +
      cfg.groupSize * estimateFullLayerKiviBlocksForTotalLen cfg totalLen ≤ totalLen := by
  have packed := estimateBlocks_mul cfg totalLen
  have bound : finalized cfg.residualLength cfg.groupSize (totalLen - cfg.sinkKeepTokens) ≤
    totalLen - cfg.sinkKeepTokens := finalized_le_self
  have pos : 0 < cfg.groupSize * estimateFullLayerKiviBlocksForTotalLen cfg totalLen :=
    Nat.mul_pos cfg.group_pos (Nat.pos_of_ne_zero some)
  omega

theorem FullKept.evict {k m : Nat} (h : FullKept cfg r r.seqLen k)
    (hkivi : cfg.fullLayerKiviEnabled = true) (hkm : k ≤ m)
    (room : m ≠ 0 → cfg.sinkKeepTokens + cfg.groupSize * m ≤ r.seqLen) :
    FullKept cfg
      { r with
        kiviBlocks := r.kiviBlocks ∪
          (Finset.range (m - k)).image fun i =>
            cfg.sinkKeepTokens + cfg.groupSize * k + cfg.groupSize * i
        fullSlots := r.fullSlots \ Finset.Ico (cfg.sinkKeepTokens + cfg.groupSize * k)
          (cfg.sinkKeepTokens + cfg.groupSize * m)
        quantizedLen := cfg.sinkKeepTokens + cfg.groupSize * m } r.seqLen m where
  plain off := absurd hkivi (by simp [off])
  quantized _ := max_eq_right (Nat.le_add_right _ _)
  full _ := by
    show r.fullSlots \ _ = _
    have grows : cfg.groupSize * k ≤ cfg.groupSize * m := Nat.mul_le_mul_left _ hkm
    rw [h.full hkivi]
    ext p
    simp only [Finset.mem_sdiff, Finset.mem_range, Finset.mem_Ico]
    omega
  blocks _ := by
    show r.kiviBlocks ∪ _ = _
    rw [h.blocks hkivi]
    ext p
    simp only [Finset.mem_union, Finset.mem_image, Finset.mem_range]
    constructor
    · rintro (⟨i, hi, rfl⟩ | ⟨i, hi, rfl⟩)
      · exact ⟨i, by omega, rfl⟩
      · exact ⟨k + i, by omega, by rw [Nat.mul_add, Nat.add_assoc]⟩
    · rintro ⟨i, hi, rfl⟩
      rcases Nat.lt_or_ge i k with old | new
      · exact Or.inl ⟨i, old, rfl⟩
      · refine Or.inr ⟨i - k, by omega, ?_⟩
        rw [Nat.add_assoc, ← Nat.mul_add, Nat.add_sub_cancel' new]
  room := room

theorem fullLayerKiviEvict_spec (blocksFree : Nat)
    (h : FullKept cfg r r.seqLen (estimateFullLayerKiviBlocksForTotalLen cfg old))
    (hlen : old ≤ r.seqLen) :
    (cfg.fullLayerKiviEnabled = true ∧
      blocksFree < estimateFullLayerKiviBlocksForTotalLen cfg r.seqLen -
        estimateFullLayerKiviBlocksForTotalLen cfg old ∧
      fullLayerKiviEvict cfg blocksFree r = .error .outOfKiviBlocks) ∨
    ∃ r', fullLayerKiviEvict cfg blocksFree r = .ok r' ∧ FullEvicted cfg r r' := by
  have more := estimateBlocks_mono cfg hlen
  have packed := estimateBlocks_mul cfg r.seqLen
  have eq := estimateBlocks_eq cfg r.seqLen
  have room := estimateBlocks_room cfg r.seqLen
  generalize estimateFullLayerKiviBlocksForTotalLen cfg old = k at h more ⊢
  generalize hm : estimateFullLayerKiviBlocksForTotalLen cfg r.seqLen = m
    at more packed eq room ⊢
  simp only [fullLayerKiviEvict]
  by_cases hkivi : cfg.fullLayerKiviEnabled = false
  · rw [if_pos hkivi]
    refine Or.inr ⟨r, rfl, FullEvicted.rfl (hm ▸ ?_)⟩
    exact ⟨h.plain, fun on => absurd on (by simp [hkivi]), fun on => absurd on (by simp [hkivi]),
      fun on => absurd on (by simp [hkivi]), room⟩
  rw [if_neg hkivi]
  have hkivi : cfg.fullLayerKiviEnabled = true := by simpa using hkivi
  have relEnd : (r.seqLen - cfg.sinkKeepTokens - cfg.residualLength) / cfg.groupSize *
      cfg.groupSize = cfg.groupSize * m := by rw [eq, Nat.mul_comm]
  rw [relEnd]
  -- Where nothing new is to be packed, the groups are already those of the row's length.
  have idle : m = k → ∃ r', (Except.ok r : Except EvictError Row) = .ok r' ∧
      FullEvicted cfg r r' := fun same =>
    ⟨r, rfl, FullEvicted.rfl (by rw [hm, same]; exact h)⟩
  by_cases short : r.seqLen - cfg.sinkKeepTokens ≤ cfg.residualLength ∨ cfg.groupSize * m = 0
  · rw [if_pos short]
    refine Or.inr (idle ?_)
    have none : m = 0 := by
      rcases short with short | zero
      · rw [eq, Nat.sub_eq_zero_of_le short, Nat.zero_div]
      · exact (Nat.mul_eq_zero.mp zero).resolve_left cfg.group_pos.ne'
    omega
  rw [if_neg short]
  have start : max cfg.sinkKeepTokens
      (if r.quantizedLen = 0 then cfg.sinkKeepTokens else r.quantizedLen) =
        cfg.sinkKeepTokens + cfg.groupSize * k := by
    rw [← h.quantized hkivi]
    split <;> omega
  have aligned : cfg.sinkKeepTokens + (cfg.sinkKeepTokens + cfg.groupSize * k -
      cfg.sinkKeepTokens + cfg.groupSize - 1) / cfg.groupSize * cfg.groupSize =
        cfg.sinkKeepTokens + cfg.groupSize * k := by
    have sum : cfg.sinkKeepTokens + cfg.groupSize * k - cfg.sinkKeepTokens + cfg.groupSize - 1 =
        cfg.groupSize - 1 + cfg.groupSize * k := by
      have := cfg.group_pos
      omega
    rw [sum, Nat.add_mul_div_left _ _ cfg.group_pos,
      Nat.div_eq_of_lt (Nat.sub_lt cfg.group_pos Nat.one_pos), Nat.zero_add, Nat.mul_comm]
  rw [start, aligned]
  by_cases done : cfg.sinkKeepTokens + cfg.groupSize * m ≤ cfg.sinkKeepTokens + cfg.groupSize * k
  · rw [if_pos done]
    have le : m ≤ k := Nat.le_of_mul_le_mul_left (Nat.le_of_add_le_add_left done) cfg.group_pos
    exact Or.inr (idle (by omega))
  rw [if_neg done]
  have some : m ≠ 0 := by
    rintro rfl
    exact done (by omega)
  have inside : Finset.Ico (cfg.sinkKeepTokens + cfg.groupSize * k)
      (cfg.sinkKeepTokens + cfg.groupSize * m) ⊆ r.fullSlots := by
    intro p hp
    have mem := Finset.mem_Ico.mp hp
    have bound := room some
    rw [h.full hkivi]
    simp only [Finset.mem_sdiff, Finset.mem_range, Finset.mem_Ico]
    omega
  rw [if_neg (not_not.mpr inside)]
  have count : (cfg.sinkKeepTokens + cfg.groupSize * m -
      (cfg.sinkKeepTokens + cfg.groupSize * k)) / cfg.groupSize = m - k := by
    rw [Nat.add_sub_add_left, ← Nat.mul_sub, Nat.mul_div_cancel_left _ cfg.group_pos]
  rw [count]
  by_cases free : blocksFree < m - k
  · exact Or.inl ⟨hkivi, free, if_pos free⟩
  rw [if_neg free]
  have kept := h.evict hkivi more room
  rw [← hm] at kept
  rw [← hm]
  exact Or.inr ⟨_, rfl, kept, sdiff_subset, rfl, rfl, rfl, rfl, rfl, rfl⟩

end SparseEngine.DeltaKV
