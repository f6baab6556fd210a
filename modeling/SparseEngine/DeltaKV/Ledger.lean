import SparseEngine.DeltaKV.Eviction

/-! The scheduler reserves by estimators that see lengths only. -/

namespace SparseEngine.DeltaKV

open Batches

variable {cfg : Config} {r r' : Row}

/-- The row holds the slots that `len` tokens keep. -/
structure Kept (cfg : Config) (r : Row) (len : Nat) : Prop where
  sparse : SparseKept cfg r len
  compressed : r.compressedLen = estimateDeltakvLatentSlotsForTotalLen cfg len
  full : FullKept cfg r len (estimateFullLayerKiviBlocksForTotalLen cfg len)

def Planned (cfg : Config) (r : Row) (len : Nat) : Prop :=
  ∀ p ∈ (fullPrefillPlanCpu cfg len).keepPositions, p ∈ r.rawSlots

/-- The row holds its own tokens, or those of the prompt it has a plan for. -/
structure Held (cfg : Config) (r : Row) : Prop where
  settled : r.fullPrefillPlan = none → Kept cfg r r.seqLen
  planned : ∀ promptLen, r.fullPrefillPlan = some promptLen →
    Kept cfg r promptLen ∧ Planned cfg r promptLen ∧ 0 < r.seqLen

variable (len : Nat)

theorem plan_sinkLen :
    (fullPrefillPlanCpu cfg len).sinkLen = min cfg.sinkKeepTokens len := by
  simp only [fullPrefillPlanCpu]
  split <;> rfl

theorem plan_evictStart :
    (fullPrefillPlanCpu cfg len).evictStart = min cfg.sinkKeepTokens len := by
  simp only [fullPrefillPlanCpu]
  split <;> rfl

theorem plan_evictLen :
    (fullPrefillPlanCpu cfg len).evictLen = estimateDeltakvLatentSlotsForTotalLen cfg len := by
  have buffer : len - min cfg.sinkKeepTokens len = len - cfg.sinkKeepTokens := by omega
  simp only [fullPrefillPlanCpu, estimateDeltakvLatentSlotsForTotalLen, buffer]
  by_cases short : len - cfg.sinkKeepTokens ≤ cfg.recentKeepTokens
  · simp only [if_pos short]
  simp only [if_neg short]
  by_cases hrecent : 0 < cfg.recentKeepTokens
  · simp only [if_pos hrecent, max_eq_right (Nat.one_le_iff_ne_zero.mpr hrecent.ne')]
  · simp only [if_neg hrecent]

theorem plan_evictEnd (cfg : Config) (len : Nat) : (fullPrefillPlanCpu cfg len).evictEnd =
    min cfg.sinkKeepTokens len + estimateDeltakvLatentSlotsForTotalLen cfg len := by
  rw [← plan_evictLen, ← plan_sinkLen]
  simp only [fullPrefillPlanCpu]
  split <;> rfl

theorem sink_le_of_estimateLatent {len : Nat}
    (some : estimateDeltakvLatentSlotsForTotalLen cfg len ≠ 0) : cfg.sinkKeepTokens ≤ len := by
  have := estimateLatent_le cfg len
  omega

theorem plan_keep {len p : Nat} (hp : p < len)
    (sides : p < cfg.sinkKeepTokens ∨
      cfg.sinkKeepTokens + estimateDeltakvLatentSlotsForTotalLen cfg len ≤ p) :
    p ∈ (fullPrefillPlanCpu cfg len).keepPositions := by
  have stop := plan_evictEnd cfg len
  by_cases short : len - min cfg.sinkKeepTokens len ≤ cfg.recentKeepTokens
  · simp only [fullPrefillPlanCpu, if_pos short]
    exact List.mem_range.mpr hp
  · simp only [fullPrefillPlanCpu, if_neg short] at stop ⊢
    rw [stop]
    simp only [List.mem_append, List.mem_range, List.mem_range'_1]
    omega

theorem plan_centers_subset {len p : Nat} (h : p ∈ (fullPrefillPlanCpu cfg len).centers) :
    p ∈ (fullPrefillPlanCpu cfg len).keepPositions := by
  simp only [fullPrefillPlanCpu] at h ⊢
  split at h
  next => exact absurd h List.not_mem_nil
  next short =>
    rw [if_neg short]
    exact List.mem_append_left _ (List.mem_append_right _ h)

theorem plan_centers_lt {len p : Nat} (h : p ∈ (fullPrefillPlanCpu cfg len).centers) :
    p < cfg.sinkKeepTokens + estimateDeltakvLatentSlotsForTotalLen cfg len := by
  have stop := plan_evictEnd cfg len
  simp only [fullPrefillPlanCpu] at h stop
  split at h
  next => exact absurd h List.not_mem_nil
  next short =>
    rw [if_neg short] at stop
    simp only at stop
    have := (mem_centerPositions cfg.clusterStep_pos h).2
    omega

theorem planned_sparse (len : Nat) (full : Finset Nat) (blocks : Finset Nat) (quantized : Nat) :
    SparseKept cfg
      { rawSlots := ∅ ∪ (fullPrefillPlanCpu cfg len).keepPositions.toFinset
        latentSlots := ∅ ∪ Finset.Ico (fullPrefillPlanCpu cfg len).evictStart
          (fullPrefillPlanCpu cfg len).evictEnd
        compressedLen := (fullPrefillPlanCpu cfg len).evictLen
        fullSlots := full, kiviBlocks := blocks, quantizedLen := quantized } len where
  stored p hp sides := by
    rw [plan_evictLen] at sides
    exact Finset.mem_union_right _ (List.mem_toFinset.mpr (plan_keep hp sides))
  live _ h := nomatch h
  latent := by
    show ∅ ∪ Finset.Ico _ _ = Finset.Ico _ (cfg.sinkKeepTokens + _)
    rw [plan_evictLen, plan_evictStart, plan_evictEnd, Finset.empty_union]
    by_cases none : estimateDeltakvLatentSlotsForTotalLen cfg len = 0
    · simp [none]
    · rw [min_eq_left (sink_le_of_estimateLatent none)]

theorem preparePlan_kept (cfg : Config) (len : Nat) : Kept cfg (preparePlan cfg {} len) len := by
  have packed := estimateBlocks_eq cfg len
  have room := estimateBlocks_room cfg len
  have rest : len - min cfg.sinkKeepTokens len = len - cfg.sinkKeepTokens := by omega
  unfold preparePlan
  by_cases hkivi : cfg.fullLayerKiviEnabled = true
  · simp only [if_pos hkivi]
    refine ⟨planned_sparse len _ _ _, plan_evictLen len, ?_⟩
    generalize estimateFullLayerKiviBlocksForTotalLen cfg len = k at packed room ⊢
    have quantEnd : (len - cfg.sinkKeepTokens - cfg.residualLength) / cfg.groupSize *
        cfg.groupSize = cfg.groupSize * k := by rw [packed, Nat.mul_comm]
    refine ⟨fun off => absurd hkivi (by simp [off]), fun _ => ?_, fun _ => ?_, fun _ => ?_, room⟩
    · show max _ (min cfg.sinkKeepTokens len + _) = _
      rw [rest, quantEnd]
      rcases Nat.eq_zero_or_pos k with none | some
      · simp [none]
      · have := room some.ne'
        omega
    · show Finset.range _ ∪ Finset.Ico (min cfg.sinkKeepTokens len + _) len = _
      rw [rest, quantEnd]
      ext p
      simp only [Finset.mem_union, Finset.mem_sdiff, Finset.mem_range, Finset.mem_Ico]
      rcases Nat.eq_zero_or_pos k with none | some
      · simp only [none, Nat.mul_zero]
        omega
      · have := room some.ne'
        omega
    · show ∅ ∪ Finset.image _ _ = _
      rw [rest, quantEnd, Nat.add_sub_cancel_left, Nat.mul_div_cancel_left _ cfg.group_pos,
        Finset.empty_union]
      rcases Nat.eq_zero_or_pos k with none | some
      · simp [none]
      · have := room some.ne'
        rw [min_eq_left (by omega : cfg.sinkKeepTokens ≤ len)]
  · simp only [if_neg hkivi]
    exact ⟨planned_sparse len _ _ _, plan_evictLen len, fun _ => ⟨rfl, rfl⟩,
      fun on => absurd on hkivi, fun on => absurd on hkivi, fun on => absurd on hkivi, room⟩

theorem preparePlan_seqLen : (preparePlan cfg {} len).seqLen = 0 := by
  unfold preparePlan
  split <;> rfl

theorem preparePlan_planned (cfg : Config) (len : Nat) : Planned cfg (preparePlan cfg {} len) len := by
  intro p hp
  have raw : (preparePlan cfg {} len).rawSlots =
      ∅ ∪ (fullPrefillPlanCpu cfg len).keepPositions.toFinset := by
    unfold preparePlan
    split <;> rfl
  rw [raw]
  exact Finset.mem_union_right _ (List.mem_toFinset.mpr hp)

theorem Kept.setPlan {len : Nat} (h : Kept cfg r len) (plan : Option Nat) :
    Kept cfg { r with fullPrefillPlan := plan } len :=
  ⟨h.sparse.congr rfl rfl rfl rfl, h.compressed, h.full.congr rfl rfl rfl rfl⟩

theorem Kept.stage {len : Nat} (h : Kept cfg r len) (size : Nat) :
    Kept cfg (r.stage cfg size) len where
  sparse := h.sparse.congr rfl rfl rfl rfl
  compressed := h.compressed
  full :=
    { plain := fun off => by
        refine ⟨(h.full.plain off).1, ?_⟩
        show (if cfg.fullLayerKiviEnabled = true then _ else _) = Finset.range (r.seqLen + size)
        rw [if_neg (by simp [off]), (h.full.plain off).2, Finset.range_eq_Ico,
          Finset.range_eq_Ico]
        exact Finset.Ico_union_Ico_eq_Ico (Nat.zero_le _) (Nat.le_add_right _ _)
      quantized := h.full.quantized
      full := fun on => by
        show (if cfg.fullLayerKiviEnabled = true then _ else _) = _
        rw [if_pos on]
        exact h.full.full on
      blocks := h.full.blocks
      room := h.full.room }

theorem compressFullPrefill_spec {len : Nat} (h : Kept cfg r len) (hplan : Planned cfg r len)
    (spared : Clusters cfg ∨ Quiet cfg len 0) :
    ∃ r', compressFullPrefill cfg r len = .ok r' ∧ Kept cfg r' len ∧ r'.seqLen = r.seqLen ∧
      r'.fullPrefillPlan = none := by
  have kept : Kept cfg { r with
      centerSlots := some (Finset.range (fullPrefillPlanCpu cfg len).sinkLen ∪
        (fullPrefillPlanCpu cfg len).centers.toFinset)
      fullPrefillPlan := none } len := by
    refine ⟨⟨h.sparse.stored, fun centers hcenters p hp => ?_, h.sparse.latent⟩, h.compressed,
      h.full.congr rfl rfl rfl rfl⟩
    obtain rfl := Option.some.inj hcenters
    show p ∈ r.rawSlots ∧ p < cfg.sinkKeepTokens + r.compressedLen
    rcases Finset.mem_union.mp hp with sink | center
    · rw [plan_sinkLen, Finset.mem_range] at sink
      exact ⟨h.sparse.stored p (by omega) (Or.inl (by omega)), by omega⟩
    · have center := List.mem_toFinset.mp center
      exact ⟨hplan p (plan_centers_subset center), h.compressed ▸ plan_centers_lt center⟩
  simp only [compressFullPrefill]
  by_cases none : (fullPrefillPlanCpu cfg len).evictLen = 0
  · rw [if_pos none]
    exact ⟨_, rfl, kept, rfl, rfl⟩
  rw [if_neg none]
  rw [plan_evictLen] at none
  have bound := estimateLatent_le cfg len
  have clusters : Clusters cfg := by
    rcases spared with clusters | quiet
    · exact clusters
    · refine absurd ?_ none
      unfold Quiet at quiet
      rcases Nat.eq_zero_or_pos cfg.recentKeepTokens with hrecent | hrecent
      · omega
      · rw [estimateLatent_eq hrecent]
        exact finalized_eq_zero (by omega)
  have first : cfg.sinkKeepTokens ∈ (fullPrefillPlanCpu cfg len).centers := by
    have stop := plan_evictEnd cfg len
    have zero : len - min cfg.sinkKeepTokens len ≤ cfg.recentKeepTokens →
        estimateDeltakvLatentSlotsForTotalLen cfg len = 0 := fun short => by
      rw [← plan_evictLen]
      simp only [fullPrefillPlanCpu, if_pos short]
    by_cases short : len - min cfg.sinkKeepTokens len ≤ cfg.recentKeepTokens
    · exact absurd (zero short) none
    simp only [fullPrefillPlanCpu, if_neg short] at stop ⊢
    rw [stop, min_eq_left (sink_le_of_estimateLatent none)]
    exact start_mem_centerPositions cfg.clusterStep_pos (by omega)
  have nonempty : 0 < (Finset.range (fullPrefillPlanCpu cfg len).sinkLen ∪
      (fullPrefillPlanCpu cfg len).centers.toFinset).card :=
    Finset.card_pos.mpr ⟨_, Finset.mem_union_right _ (List.mem_toFinset.mpr first)⟩
  rw [clusterCompress_ok clusters nonempty]
  exact ⟨_, rfl, kept, rfl, rfl⟩

end SparseEngine.DeltaKV
