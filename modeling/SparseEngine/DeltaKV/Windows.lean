import SparseEngine.DeltaKV.Ledger

/-! The steps of a row, and what one of them does to what the row keeps. -/

namespace SparseEngine.DeltaKV

open Batches

variable {cfg : Config} {r r' : Row}

def Event.size : Event → Nat
  | .staged totalLen => totalLen
  | .offload _ size => size
  | .chunk size => size
  | .decode => 1

/-- The step evicts nothing, or its eviction can cut. -/
def Spared (cfg : Config) (r : Row) : Event → Prop
  | .staged totalLen => Clusters cfg ∨ Quiet cfg totalLen 0
  | .offload promptLen _ => Clusters cfg ∨ Quiet cfg promptLen 0
  | .chunk size => 0 < cfg.recentKeepTokens ∧ Clusters cfg ∨
      Quiet cfg (r.seqLen + size) r.compressedLen
  | .decode => 0 < cfg.recentKeepTokens ∧ Clusters cfg ∨
      Quiet cfg (r.seqLen + 1) r.compressedLen

def Supplied (cfg : Config) (free : Pool → Nat) (r : Row) (e : Event) : Prop :=
  decodeWindowCosts cfg r e.size .deltakvLatent ≤ free .deltakvLatent ∧
    decodeWindowCosts cfg r e.size .fullLayerKiviBlocks ≤ free .fullLayerKiviBlocks

theorem FullKept.quantizedGroups {len k : Nat} (h : FullKept cfg r len k)
    (hkivi : cfg.fullLayerKiviEnabled = true) : quantizedGroups cfg r = k := by
  have packed : r.quantizedLen - cfg.sinkKeepTokens = cfg.groupSize * k := by
    have := h.quantized hkivi
    omega
  rw [DeltaKV.quantizedGroups, packed, Nat.mul_div_cancel_left _ cfg.group_pos]

variable (free : Pool → Nat)

theorem deltakvEvict_spec {old : Nat} (sparse : SparseKept cfg r r.seqLen)
    (hold : r.compressedLen = estimateDeltakvLatentSlotsForTotalLen cfg old)
    (full : FullKept cfg r r.seqLen (estimateFullLayerKiviBlocksForTotalLen cfg old))
    (hlen : old ≤ r.seqLen)
    (spared : 0 < cfg.recentKeepTokens ∧ Clusters cfg ∨ Quiet cfg r.seqLen r.compressedLen) :
    (free .deltakvLatent <
        estimateDeltakvLatentSlotsForTotalLen cfg r.seqLen - r.compressedLen ∧
      deltakvEvict cfg free r = .error .outOfLatentSlots) ∨
    (cfg.fullLayerKiviEnabled = true ∧ free .fullLayerKiviBlocks <
        estimateFullLayerKiviBlocksForTotalLen cfg r.seqLen -
          estimateFullLayerKiviBlocksForTotalLen cfg old ∧
      deltakvEvict cfg free r = .error .outOfKiviBlocks) ∨
    ∃ r', deltakvEvict cfg free r = .ok r' ∧ Kept cfg r' r.seqLen ∧ r'.seqLen = r.seqLen ∧
      r'.fullPrefillPlan = r.fullPrefillPlan ∧ r'.rawSlots ⊆ r.rawSlots := by
  rcases sparseEvict_spec (free .deltakvLatent) sparse hold hlen spared with
    ⟨short, failed⟩ | ⟨mid, evicted, first⟩
  · refine Or.inl ⟨short, ?_⟩
    rw [deltakvEvict, failed]
    rfl
  have full' : FullKept cfg mid mid.seqLen (estimateFullLayerKiviBlocksForTotalLen cfg old) := by
    rw [first.seqLen]
    exact full.congr first.seqLen first.full first.blocks first.quantized
  have run : deltakvEvict cfg free r = fullLayerKiviEvict cfg (free .fullLayerKiviBlocks) mid := by
    rw [deltakvEvict, evicted]
    rfl
  rw [run]
  rcases fullLayerKiviEvict_spec (free .fullLayerKiviBlocks) full' (first.seqLen ▸ hlen) with
    ⟨hkivi, short, failed⟩ | ⟨r', packed, second⟩
  · exact Or.inr (Or.inl ⟨hkivi, first.seqLen ▸ short, failed⟩)
  refine Or.inr (Or.inr ⟨r', packed, ?_, second.seqLen.trans first.seqLen,
    second.plan.trans first.plan, second.raw ▸ first.raw⟩)
  refine ⟨first.kept.congr second.raw second.latent second.centers second.compressed,
    second.compressed.trans first.compressed, ?_⟩
  have kept := second.kept
  rwa [first.seqLen] at kept

theorem chunk_spec (h : Kept cfg r r.seqLen) (size : Nat)
    (spared : Spared cfg r (.chunk size)) :
    (¬ Supplied cfg free r (.chunk size) ∧
      ∀ r', step cfg free r (.chunk size) ≠ .ok r') ∨
    ∃ r', step cfg free r (.chunk size) = .ok r' ∧ Kept cfg r' r'.seqLen ∧
      r'.seqLen = r.seqLen + size ∧ r'.fullPrefillPlan = r.fullPrefillPlan ∧
      r'.rawSlots.card ≤ r.rawSlots.card + size := by
  have outcome := deltakvEvict_spec free (r := r.append size) (h.sparse.append size)
    h.compressed (h.full.append size) (Nat.le_add_right _ _) spared
  rcases outcome with ⟨short, failed⟩ | ⟨hkivi, short, failed⟩ | ⟨r', evicted, kept, len, plan, raw⟩
  · refine Or.inl ⟨fun supplied => ?_, fun r' ok => ?_⟩
    · exact absurd short (Nat.not_lt.mpr supplied.1)
    · exact nomatch failed.symm.trans ok
  · refine Or.inl ⟨fun supplied => ?_, fun r' ok => ?_⟩
    · have enough := supplied.2
      simp only [decodeWindowCosts, if_pos hkivi, h.full.quantizedGroups hkivi] at enough
      exact absurd short (Nat.not_lt.mpr enough)
    · exact nomatch failed.symm.trans ok
  · refine Or.inr ⟨r', evicted, len ▸ kept, len, plan, (Finset.card_le_card raw).trans ?_⟩
    have added : (Finset.Ico r.seqLen (r.seqLen + size)).card = size := by simp
    exact (Finset.card_union_le _ _).trans_eq (by rw [added])

structure Stepped (cfg : Config) (r r' : Row) (size : Nat) : Prop where
  held : Held cfg r'
  seqLen : r'.seqLen = r.seqLen + size

theorem Kept.held (h : Kept cfg r r.seqLen) (settled : r.fullPrefillPlan = none) : Held cfg r :=
  ⟨fun _ => h, fun _ planned => nomatch settled.symm.trans planned⟩

theorem kept_fresh (cfg : Config) : Kept cfg {} 0 where
  sparse := ⟨fun p hp => absurd hp (Nat.not_lt_zero p), fun _ h => (nomatch h), by simp⟩
  compressed := by
    have none := estimateLatent_le cfg 0
    exact (Nat.le_zero.mp (by simpa using none)).symm
  full := by
    have none : estimateFullLayerKiviBlocksForTotalLen cfg 0 = 0 := by
      simp [estimateBlocks_eq]
    rw [none]
    exact ⟨fun _ => ⟨rfl, rfl⟩, fun _ => by simp, fun _ => by simp, fun _ => by simp,
      fun h => absurd rfl h⟩

theorem quiet_of_compressed {len compressed : Nat}
    (h : compressed = estimateDeltakvLatentSlotsForTotalLen cfg len) : Quiet cfg len compressed := by
  unfold Quiet
  rcases Nat.eq_zero_or_pos cfg.recentKeepTokens with hrecent | hrecent
  · rw [estimateLatent_of_recent_eq_zero hrecent] at h
    omega
  · rw [estimateLatent_eq hrecent] at h
    have rest := lt_finalized_add cfg.recentKeepTokens (len - cfg.sinkKeepTokens) hrecent
    omega

theorem staged_spec (totalLen : Nat)
    (spared : Spared cfg {} (.staged totalLen)) :
    ∃ r', step cfg free {} (.staged totalLen) = .ok r' ∧ Stepped cfg {} r' totalLen ∧
      r'.fullPrefillPlan = none := by
  have kept := (preparePlan_kept cfg totalLen).stage totalLen
  have planned : Planned cfg ((preparePlan cfg {} totalLen).stage cfg totalLen) totalLen :=
    preparePlan_planned cfg totalLen
  obtain ⟨mid, compressed, keptMid, lenMid, planMid⟩ := compressFullPrefill_spec kept planned spared
  have len : mid.seqLen = totalLen := by
    rw [lenMid]
    show (preparePlan cfg {} totalLen).seqLen + totalLen = totalLen
    rw [preparePlan_seqLen, Nat.zero_add]
  have run : step cfg free {} (.staged totalLen) = deltakvEvict cfg free mid := by
    show (compressFullPrefill cfg _ totalLen >>= fun r => deltakvEvict cfg free r) = _
    rw [compressed]
    rfl
  have quiet := quiet_of_compressed keptMid.compressed
  rw [run]
  rcases deltakvEvict_spec free (r := mid) (len.symm ▸ keptMid.sparse)
      keptMid.compressed (len.symm ▸ keptMid.full) len.ge (Or.inr (len.symm ▸ quiet)) with
    ⟨short, -⟩ | ⟨-, short, -⟩ | ⟨r', evicted, keptAfter, lenAfter, planAfter, -⟩
  · rw [len, keptMid.compressed] at short
    omega
  · rw [len] at short
    omega
  · rw [len] at keptAfter lenAfter
    have settled := planAfter.trans planMid
    refine ⟨r', evicted, ⟨Kept.held (lenAfter.symm ▸ keptAfter) settled, ?_⟩, settled⟩
    rw [lenAfter]
    exact (Nat.zero_add _).symm

theorem offload_spec {promptLen size : Nat} (h : Held cfg r)
    (allowed : Allowed r (.offload promptLen size))
    (spared : Spared cfg r (.offload promptLen size)) :
    ∃ r', step cfg free r (.offload promptLen size) = .ok r' ∧ Stepped cfg r r' size := by
  obtain ⟨source, hsize, room⟩ := allowed
  obtain ⟨kept, hplan, len⟩ :
      Kept cfg (if r.seqLen = 0 then preparePlan cfg r promptLen else r) promptLen ∧
      Planned cfg (if r.seqLen = 0 then preparePlan cfg r promptLen else r) promptLen ∧
      (if r.seqLen = 0 then preparePlan cfg r promptLen else r).seqLen = r.seqLen := by
    rcases source with rfl | planned
    · exact ⟨preparePlan_kept cfg promptLen, preparePlan_planned cfg promptLen,
        preparePlan_seqLen promptLen⟩
    · obtain ⟨kept, hplan, started⟩ := h.planned promptLen planned
      rw [if_neg started.ne']
      exact ⟨kept, hplan, rfl⟩
  simp only [step]
  generalize (if r.seqLen = 0 then preparePlan cfg r promptLen else r) = planned
    at kept hplan len ⊢
  have staged := (kept.stage size).setPlan (some promptLen)
  have stagedLen : (planned.stage cfg size).seqLen = r.seqLen + size := by
    show planned.seqLen + size = _
    rw [len]
  split
  next last =>
    have last : (planned.stage cfg size).seqLen = promptLen := last
    obtain ⟨r', compressed, kept', len', plan'⟩ := compressFullPrefill_spec staged hplan spared
    have lenPrompt : r'.seqLen = promptLen := len'.trans last
    exact ⟨r', compressed, Kept.held (lenPrompt.symm ▸ kept') plan', len'.trans stagedLen⟩
  next more =>
    refine ⟨_, rfl, ⟨fun settled => (nomatch settled), fun len planned => ?_⟩, stagedLen⟩
    obtain rfl := Option.some.inj planned
    refine ⟨staged, hplan, ?_⟩
    show 0 < (Row.stage cfg _ size).seqLen
    omega

theorem step_spec {e : Event} (h : Held cfg r) (allowed : Allowed r e)
    (spared : Spared cfg r e) :
    (¬ Supplied cfg free r e ∧ ∀ r', step cfg free r e ≠ .ok r') ∨
      ∃ r', step cfg free r e = .ok r' ∧ Stepped cfg r r' e.size := by
  have stored : ∀ size, r.fullPrefillPlan = none → Spared cfg r (.chunk size) →
      (¬ Supplied cfg free r (.chunk size) ∧ ∀ r', step cfg free r (.chunk size) ≠ .ok r') ∨
        ∃ r', step cfg free r (.chunk size) = .ok r' ∧ Stepped cfg r r' size := by
    intro size settled spared
    refine (chunk_spec free (h.settled settled) size spared).imp_right ?_
    rintro ⟨r', ok, kept, len, plan, -⟩
    exact ⟨r', ok, kept.held (plan.trans settled), len⟩
  cases e with
  | staged totalLen =>
    obtain ⟨rfl, -⟩ := allowed
    obtain ⟨r', ok, stepped, -⟩ := staged_spec free totalLen spared
    exact Or.inr ⟨r', ok, stepped⟩
  | offload promptLen size => exact Or.inr (offload_spec free h allowed spared)
  | chunk size => exact stored size allowed.1 spared
  | decode => exact stored 1 allowed.1 spared

theorem Kept.residency {len : Nat} (h : Kept cfg r len) (hlen : r.seqLen = len) :
    chainCapacityResidency cfg r .deltakvLatent =
        estimateDeltakvLatentSlotsForTotalLen cfg len ∧
      chainCapacityResidency cfg r .fullLayerKiviBlocks =
        (if cfg.fullLayerKiviEnabled then estimateFullLayerKiviBlocksForTotalLen cfg len else 0) ∧
      chainCapacityResidency cfg r .fullLayers + cfg.groupSize *
        chainCapacityResidency cfg r .fullLayerKiviBlocks = len := by
  have latent : r.latentSlots.card = estimateDeltakvLatentSlotsForTotalLen cfg len := by
    rw [h.sparse.latent, Nat.card_Ico, Nat.add_sub_cancel_left, h.compressed]
  refine ⟨latent, ?_⟩
  simp only [chainCapacityResidency]
  by_cases hkivi : cfg.fullLayerKiviEnabled = true
  · have room := h.full.room
    have full := h.full.full hkivi
    have blocks : r.kiviBlocks.card = estimateFullLayerKiviBlocksForTotalLen cfg len := by
      rw [h.full.blocks hkivi, Finset.card_image_of_injective, Finset.card_range]
      intro i j same
      exact Nat.eq_of_mul_eq_mul_left cfg.group_pos (Nat.add_left_cancel same)
    rw [if_pos hkivi, if_pos hkivi, blocks]
    refine ⟨rfl, ?_⟩
    generalize estimateFullLayerKiviBlocksForTotalLen cfg len = k at room full ⊢
    have inside : Finset.Ico cfg.sinkKeepTokens (cfg.sinkKeepTokens + cfg.groupSize * k) ⊆
        Finset.range len := by
      intro p hp
      have mem := Finset.mem_Ico.mp hp
      have some : k ≠ 0 := by
        rintro rfl
        omega
      exact Finset.mem_range.mpr (by have := room some; omega)
    have packed : cfg.groupSize * k ≤ len := by
      rcases Nat.eq_zero_or_pos k with none | some
      · simp [none]
      · have := room some.ne'
        omega
    rw [full, Finset.card_sdiff_of_subset inside, Finset.card_range, Nat.card_Ico]
    omega
  · have plain := h.full.plain (by simpa using hkivi)
    rw [if_neg hkivi, if_neg hkivi, plain.2, Finset.card_range, hlen]
    exact ⟨rfl, by simp⟩

theorem Kept.full_lt_rawPeak (h : Kept cfg r r.seqLen) (hkivi : cfg.fullLayerKiviEnabled = true) :
    chainCapacityResidency cfg r .fullLayers < rawPeak cfg := by
  obtain ⟨-, blocks, total⟩ := h.residency rfl
  rw [blocks, if_pos hkivi, estimateBlocks_mul] at total
  have rest := lt_finalized_add cfg.residualLength (r.seqLen - cfg.sinkKeepTokens) cfg.group_pos
  unfold rawPeak
  omega

section

-- The condition that the steps of a history meet.
variable (spared : Row → Event → Prop)

inductive Run (cfg : Config) : Row → Prop
  | fresh : Run cfg {}
  | step {r r' : Row} (free : Pool → Nat) (e : Event) (run : Run cfg r) (allowed : Allowed r e)
      (cond : spared r e) (ok : step cfg free r e = .ok r') : Run cfg r'

inductive Decodes (cfg : Config) (r : Row) : Nat → Row → Prop
  | refl : Decodes cfg r 0 r
  | step {n : Nat} {mid r' : Row} (free : Pool → Nat) (run : Decodes cfg r n mid)
      (cond : spared mid .decode) (ok : step cfg free mid .decode = .ok r') :
      Decodes cfg r (n + 1) r'

inductive Resumes (cfg : Config) (r : Row) : Nat → Row → Prop
  | refl : Resumes cfg r 0 r
  | step {n : Nat} {mid r' : Row} (free : Pool → Nat) (available size : Nat)
      (run : Resumes cfg r n mid) (pos : 0 < size)
      (fits : size ≤ prefillStepFreeSlotsFor cfg available mid) (cond : spared mid (.chunk size))
      (ok : step cfg free mid (.chunk size) = .ok r') : Resumes cfg r (n + size) r'

/-- The ledger agrees with the runtime on a row. -/
structure LedgerAgrees (cfg : Config) (r : Row) : Prop where
  evicts : ∀ e free, Allowed r e → spared r e → Supplied cfg free r e →
    ∃ r', step cfg free r e = .ok r'
  compressed : r.fullPrefillPlan = none →
    r.compressedLen = estimateDeltakvLatentSlotsForTotalLen cfg r.seqLen
  blocks : r.fullPrefillPlan = none → cfg.fullLayerKiviEnabled = true →
    r.kiviBlocks.card = estimateFullLayerKiviBlocksForTotalLen cfg r.seqLen
  residency : r.fullPrefillPlan = none →
    r.fullSlots.card + cfg.groupSize * r.kiviBlocks.card = r.seqLen
  window : r.fullPrefillPlan = none → ∀ n k mid, Decodes spared cfg r k mid → ∀ pool,
    (k ≤ n → chainCapacityResidency cfg mid pool ≤
      chainCapacityResidency cfg r pool + decodeWindowCosts cfg r n pool) ∧
    (k < n → chainCapacityResidency cfg (mid.append 1) pool ≤
      chainCapacityResidency cfg r pool + decodeWindowCosts cfg r n pool)
  suffix : r.fullPrefillPlan = none → 0 < r.seqLen →
    ∀ suffixTokens generationTokens k mid, Resumes spared cfg r k mid → ∀ pool,
    (k ≤ suffixTokens → chainCapacityResidency cfg mid pool ≤ chainCapacityResidency cfg r pool +
      chainCapacityRequired cfg (chainCapacityResidency cfg r) suffixTokens generationTokens pool) ∧
    ∀ available size, size ≤ prefillStepFreeSlotsFor cfg available mid → k + size ≤ suffixTokens →
      chainCapacityResidency cfg (mid.append size) pool ≤ chainCapacityResidency cfg r pool +
        chainCapacityRequired cfg (chainCapacityResidency cfg r) suffixTokens generationTokens pool

variable {spared}

theorem Decodes.resumes {n : Nat} (run : Decodes spared cfg r n r')
    (same : ∀ mid, spared mid .decode → spared mid (.chunk 1)) : Resumes spared cfg r n r' := by
  induction run with
  | refl => exact Resumes.refl
  | step free _ cond ok ih =>
    refine Resumes.step free 1 1 ih Nat.one_pos ?_ (same _ cond) ok
    unfold prefillStepFreeSlotsFor
    split <;> omega

end

structure Grown (cfg : Config) (r : Row) (n : Nat) (r' : Row) : Prop where
  kept : Kept cfg r' r'.seqLen
  seqLen : r'.seqLen = r.seqLen + n
  raw : r'.rawSlots.card ≤ r.rawSlots.card + n

theorem Resumes.grown {n : Nat} (h : Kept cfg r r.seqLen)
    (run : Resumes (Spared cfg) cfg r n r') : Grown cfg r n r' := by
  induction run with
  | refl => exact ⟨h, rfl, le_rfl⟩
  | step free available size _ _ _ cond ok ih =>
    rcases chunk_spec free ih.kept size cond with ⟨-, failed⟩ | ⟨mid, ok', kept, len, -, raw⟩
    · exact absurd ok (failed _)
    · obtain rfl := Except.ok.inj (ok.symm.trans ok')
      have before := ih.seqLen
      have rawBefore := ih.raw
      exact ⟨kept, by omega, by omega⟩

theorem append_residency (cfg : Config) (mid : Row) (size : Nat) (pool : Pool) :
    chainCapacityResidency cfg (mid.append size) pool ≤
      chainCapacityResidency cfg mid pool + (match pool with
        | .fullLayers => size
        | .deltakvRaw => size
        | _ => 0) := by
  have added : (Finset.Ico mid.seqLen (mid.seqLen + size)).card = size := by simp
  cases pool with
  | fullLayers => exact (Finset.card_union_le _ _).trans_eq (by rw [added]; rfl)
  | deltakvRaw => exact (Finset.card_union_le _ _).trans_eq (by rw [added]; rfl)
  | deltakvLatent => exact le_rfl
  | fullLayerKiviBlocks => exact le_rfl

theorem Kept.quantized_rest (h : Kept cfg r r.seqLen) (hkivi : cfg.fullLayerKiviEnabled = true) :
    r.seqLen - (r.quantizedLen - cfg.sinkKeepTokens) =
        chainCapacityResidency cfg r .fullLayers ∧
      r.seqLen - quantizedGroups cfg r * cfg.groupSize =
        chainCapacityResidency cfg r .fullLayers := by
  obtain ⟨-, blocks, total⟩ := h.residency rfl
  have quantized := h.full.quantized hkivi
  rw [blocks, if_pos hkivi] at total
  rw [h.full.quantizedGroups hkivi, Nat.mul_comm]
  omega

theorem Grown.full_bounded {n : Nat} {mid : Row} (grown : Grown cfg r n mid) (most : Nat)
    (h : Kept cfg r r.seqLen) :
    (n ≤ most → chainCapacityResidency cfg mid .fullLayers ≤
      chainCapacityResidency cfg r .fullLayers + decodeWindowCosts cfg r most .fullLayers) ∧
    ∀ available size, size ≤ prefillStepFreeSlotsFor cfg available mid → n + size ≤ most →
      chainCapacityResidency cfg (mid.append size) .fullLayers ≤
        chainCapacityResidency cfg r .fullLayers + decodeWindowCosts cfg r most .fullLayers := by
  obtain ⟨-, blocks, total⟩ := h.residency rfl
  obtain ⟨-, midBlocks, midTotal⟩ := grown.kept.residency rfl
  have longer := grown.seqLen
  have appended := fun size => append_residency cfg mid size .fullLayers
  simp only at appended
  by_cases hkivi : cfg.fullLayerKiviEnabled = true
  · have more : cfg.groupSize * estimateFullLayerKiviBlocksForTotalLen cfg r.seqLen ≤
        cfg.groupSize * estimateFullLayerKiviBlocksForTotalLen cfg mid.seqLen :=
      Nat.mul_le_mul_left _ (estimateBlocks_mono cfg (by omega))
    have peak := h.full_lt_rawPeak hkivi
    have midPeak := grown.kept.full_lt_rawPeak hkivi
    rw [blocks, if_pos hkivi] at total
    rw [midBlocks, if_pos hkivi] at midTotal
    simp only [decodeWindowCosts, prefillStepFreeSlotsFor, if_pos hkivi,
      (h.quantized_rest hkivi).2, (grown.kept.quantized_rest hkivi).1]
    refine ⟨fun hn => by omega, fun available size fits hmost => ?_⟩
    have := appended size
    omega
  · rw [blocks, if_neg hkivi] at total
    rw [midBlocks, if_neg hkivi] at midTotal
    simp only [decodeWindowCosts, if_neg hkivi]
    refine ⟨fun hn => by omega, fun available size _ hmost => ?_⟩
    have := appended size
    omega

theorem Grown.bounded {n : Nat} {mid : Row} (grown : Grown cfg r n mid) (most : Nat)
    (h : Kept cfg r r.seqLen) (pool : Pool) :
    (n ≤ most → chainCapacityResidency cfg mid pool ≤
      chainCapacityResidency cfg r pool + decodeWindowCosts cfg r most pool) ∧
    ∀ available size, size ≤ prefillStepFreeSlotsFor cfg available mid → n + size ≤ most →
      chainCapacityResidency cfg (mid.append size) pool ≤
        chainCapacityResidency cfg r pool + decodeWindowCosts cfg r most pool := by
  obtain ⟨latent, blocks, -⟩ := h.residency rfl
  obtain ⟨midLatent, midBlocks, -⟩ := grown.kept.residency rfl
  have appended := fun size => append_residency cfg mid size pool
  -- The pools that eviction draws on depend on the length alone.
  have evicted : ∀ pool, chainCapacityResidency cfg mid pool ≤
      chainCapacityResidency cfg r pool + decodeWindowCosts cfg r most pool →
      (∀ size, chainCapacityResidency cfg (mid.append size) pool ≤
        chainCapacityResidency cfg mid pool) →
      ∀ available size, size ≤ prefillStepFreeSlotsFor cfg available mid → n + size ≤ most →
        chainCapacityResidency cfg (mid.append size) pool ≤
          chainCapacityResidency cfg r pool + decodeWindowCosts cfg r most pool :=
    fun _ bound same _ size _ _ => (same size).trans bound
  cases pool with
  | fullLayers => exact grown.full_bounded most h
  | deltakvRaw =>
    have raw : chainCapacityResidency cfg mid .deltakvRaw ≤
      chainCapacityResidency cfg r .deltakvRaw + n := grown.raw
    simp only at appended
    simp only [decodeWindowCosts]
    refine ⟨fun hn => by omega, fun _ size _ hmost => ?_⟩
    have := appended size
    omega
  | deltakvLatent =>
    have bound : n ≤ most → chainCapacityResidency cfg mid .deltakvLatent ≤
        chainCapacityResidency cfg r .deltakvLatent +
          decodeWindowCosts cfg r most .deltakvLatent := by
      intro hn
      have mono := estimateLatent_mono cfg (Nat.add_le_add_left hn r.seqLen)
      rw [midLatent, latent, grown.seqLen]
      simp only [decodeWindowCosts, h.compressed]
      omega
    exact ⟨bound, fun available size fits hmost =>
      evicted _ (bound (by omega)) (fun size => append_residency cfg mid size .deltakvLatent)
        available size fits hmost⟩
  | fullLayerKiviBlocks =>
    have bound : n ≤ most → chainCapacityResidency cfg mid .fullLayerKiviBlocks ≤
        chainCapacityResidency cfg r .fullLayerKiviBlocks +
          decodeWindowCosts cfg r most .fullLayerKiviBlocks := by
      intro hn
      have mono := estimateBlocks_mono cfg (Nat.add_le_add_left hn r.seqLen)
      rw [midBlocks, blocks, grown.seqLen]
      by_cases hkivi : cfg.fullLayerKiviEnabled = true
      · simp only [decodeWindowCosts, if_pos hkivi, h.full.quantizedGroups hkivi]
        omega
      · simp only [if_neg hkivi]
        omega
    exact ⟨bound, fun available size fits hmost =>
      evicted _ (bound (by omega)) (fun size => append_residency cfg mid size .fullLayerKiviBlocks)
        available size fits hmost⟩

theorem Kept.required_eq (h : Kept cfg r r.seqLen) (pos : 0 < r.seqLen)
    (suffixTokens generationTokens : Nat) :
    chainCapacityRequired cfg (chainCapacityResidency cfg r) suffixTokens generationTokens =
      decodeWindowCosts cfg r (suffixTokens + (generationTokens - 1)) := by
  obtain ⟨latent, blocks, total⟩ := h.residency rfl
  have oldLen : chainCapacityResidency cfg r .fullLayers +
      chainCapacityResidency cfg r .fullLayerKiviBlocks * cfg.groupSize = r.seqLen := by
    rw [Nat.mul_comm]
    exact total
  funext pool
  cases pool with
  | fullLayers =>
    simp only [chainCapacityRequired, decodeWindowCosts, oldLen, if_neg pos.ne']
    split
    next hkivi => rw [(h.quantized_rest hkivi).2]
    next => rfl
  | deltakvRaw => simp only [chainCapacityRequired, decodeWindowCosts, oldLen, if_neg pos.ne']
  | deltakvLatent =>
    simp only [chainCapacityRequired, decodeWindowCosts, oldLen, latent, h.compressed]
  | fullLayerKiviBlocks =>
    simp only [chainCapacityRequired, decodeWindowCosts, oldLen]
    split
    next hkivi => rw [blocks, if_pos hkivi, h.full.quantizedGroups hkivi]
    next => rfl

theorem Run.held (run : Run (Spared cfg) cfg r) : Held cfg r := by
  induction run with
  | fresh => exact (kept_fresh cfg).held rfl
  | step free e _ allowed cond ok ih =>
    rcases step_spec free ih allowed cond with ⟨-, failed⟩ | ⟨mid, ok', stepped⟩
    · exact absurd ok (failed _)
    · obtain rfl := Except.ok.inj (ok.symm.trans ok')
      exact stepped.held

theorem ledgerAgrees_of_spared (run : Run (Spared cfg) cfg r) :
    LedgerAgrees (Spared cfg) cfg r := by
  have held := run.held
  refine ⟨fun e free allowed cond supplied => ?_, fun settled => (held.settled settled).compressed,
    fun settled hkivi => ?_, fun settled => ?_, fun settled n k mid decodes pool => ?_,
    fun settled pos suffixTokens generationTokens k mid resumes pool => ?_⟩
  · rcases step_spec free held allowed cond with ⟨short, -⟩ | ⟨r', ok, -⟩
    · exact absurd supplied short
    · exact ⟨r', ok⟩
  · have blocks := ((held.settled settled).residency rfl).2.1
    simpa only [chainCapacityResidency, if_pos hkivi] using blocks
  · have kept := held.settled settled
    have total := (kept.residency rfl).2.2
    by_cases hkivi : cfg.fullLayerKiviEnabled = true
    · simpa only [chainCapacityResidency, if_pos hkivi] using total
    · rw [(kept.full.plain (by simpa using hkivi)).1, Finset.card_empty]
      simpa only [chainCapacityResidency, if_neg hkivi] using total
  · have kept := held.settled settled
    have grown := (decodes.resumes fun _ cond => cond).grown kept
    have bounds := grown.bounded n kept pool
    refine ⟨bounds.1, fun hk => bounds.2 1 1 ?_ hk⟩
    unfold prefillStepFreeSlotsFor
    split <;> omega
  · have kept := held.settled settled
    have bounds := (resumes.grown kept).bounded
      (suffixTokens + (generationTokens - 1)) kept pool
    rw [kept.required_eq pos]
    exact ⟨fun hk => bounds.1 (by omega), fun available size fits hk =>
      bounds.2 available size fits (by omega)⟩

def smallConfig : Config :=
  ⟨1, 2, 2, 4, .l2, true, 2, 2, Nat.two_pos, Nat.two_pos, Nat.two_pos⟩

/-- A prompt of six tokens and a decode step. -/
theorem smallConfig_run :
    ∃ r, Run (Spared smallConfig) smallConfig r ∧ r.seqLen = 7 ∧ r.fullPrefillPlan = none := by
  have clusters : Clusters smallConfig := ⟨by decide, by decide⟩
  have recent : 0 < smallConfig.recentKeepTokens := by decide
  have supplied : ∀ r : Row, ∀ size, r.seqLen + size ≤ 7 →
      Supplied smallConfig (fun _ => 7) r (.chunk size) := by
    intro r size hlen
    have latent := estimateLatent_le smallConfig (r.seqLen + size)
    have blocks := estimateBlocks_eq smallConfig (r.seqLen + size)
    have fewer := Nat.div_le_self
      (r.seqLen + size - smallConfig.sinkKeepTokens - smallConfig.residualLength)
      smallConfig.groupSize
    refine ⟨?_, ?_⟩
    · show estimateDeltakvLatentSlotsForTotalLen smallConfig (r.seqLen + size) - _ ≤ 7
      omega
    · show estimateFullLayerKiviBlocksForTotalLen smallConfig (r.seqLen + size) - _ ≤ 7
      omega
  obtain ⟨first, ok, kept, len, plan, -⟩ :=
    (chunk_spec (fun _ => 7) (kept_fresh smallConfig) 6 (Or.inl ⟨recent, clusters⟩)).resolve_left
      fun short => short.1 (supplied {} 6 (by decide))
  have len : first.seqLen = 6 := len
  obtain ⟨second, okDecode, -, lenDecode, planDecode, -⟩ :=
    (chunk_spec (fun _ => 7) kept 1 (Or.inl ⟨recent, clusters⟩)).resolve_left
      fun short => short.1 (supplied first 1 (by omega))
  have run : Run (Spared smallConfig) smallConfig first :=
    .step (fun _ => 7) (.chunk 6) .fresh ⟨rfl, by decide⟩ (Or.inl ⟨recent, clusters⟩) ok
  exact ⟨second, .step (fun _ => 7) .decode run ⟨plan, by omega⟩ (Or.inl ⟨recent, clusters⟩)
    okDecode, by omega, planDecode.trans plan⟩

theorem ledgerAgrees_after_decode :
    ∃ r, r.seqLen = 7 ∧ LedgerAgrees (Spared smallConfig) smallConfig r := by
  obtain ⟨r, run, len, -⟩ := smallConfig_run
  exact ⟨r, len, ledgerAgrees_of_spared run⟩

/-- No position of a row is lost: the sparse layers hold it raw or, in the compressed window, as a
latent, and the full layers raw unless the KIVI block of its group is packed. -/
theorem positions_kept (run : Run (Spared cfg) cfg r) (settled : r.fullPrefillPlan = none) :
    (∀ centers, r.centerSlots = some centers → centers ⊆ r.rawSlots) ∧
    ∀ p < r.seqLen, (p ∈ r.rawSlots ∨ p ∈ r.latentSlots) ∧
      (p ∈ r.latentSlots ↔ cfg.sinkKeepTokens ≤ p ∧ p < cfg.sinkKeepTokens + r.compressedLen) ∧
      (p ∈ r.fullSlots ↔ ¬ (cfg.sinkKeepTokens ≤ p ∧
        cfg.sinkKeepTokens + cfg.groupSize * ((p - cfg.sinkKeepTokens) / cfg.groupSize) ∈
          r.kiviBlocks)) := by
  obtain ⟨sparse, -, full⟩ := run.held.settled settled
  refine ⟨fun centers hcenters q hq => (sparse.live centers hcenters q hq).1, fun p hp => ?_⟩
  rw [sparse.latent, Finset.mem_Ico]
  refine ⟨or_iff_not_imp_right.mpr fun hout => sparse.stored p hp (by omega), Iff.rfl, ?_⟩
  cases hkivi : cfg.fullLayerKiviEnabled with
  | false =>
    obtain ⟨hblocks, hslots⟩ := full.plain hkivi
    simp [hblocks, hslots, hp]
  | true =>
    have hgroup := Nat.div_lt_iff_lt_mul cfg.group_pos (x := p - cfg.sinkKeepTokens)
      (y := estimateFullLayerKiviBlocksForTotalLen cfg r.seqLen)
    rw [Nat.mul_comm] at hgroup
    simp only [full.full hkivi, full.blocks hkivi, Finset.mem_sdiff, Finset.mem_range, hp, true_and,
      Finset.mem_Ico, Finset.mem_image, Nat.add_left_cancel_iff, Nat.mul_right_inj cfg.group_pos.ne',
      exists_eq_right, hgroup]
    omega

/-- Position `1` is kept as a latent, and in the full layers in a packed block. -/
theorem positions_kept_after_decode : ∃ r, Run (Spared smallConfig) smallConfig r ∧
    r.seqLen = 7 ∧ (∀ p < 7, p ∈ r.rawSlots ∨ p ∈ r.latentSlots) ∧ 1 ∈ r.latentSlots ∧
    1 ∉ r.fullSlots := by
  obtain ⟨r, run, len, settled⟩ := smallConfig_run
  obtain ⟨-, compressed, full⟩ := run.held.settled settled
  have kept := (positions_kept run settled).2
  refine ⟨r, run, len, fun p hp => (kept p (by omega)).1, ?_, ?_⟩
  · rw [(kept 1 (by omega)).2.1, compressed, len]
    decide
  · rw [(kept 1 (by omega)).2.2, full.blocks rfl, len]
    decide

theorem decode_zeroDivision (cfg : Config) (hrecent : cfg.recentKeepTokens = 0)
    (buffered : cfg.sinkKeepTokens + r.compressedLen < r.seqLen + 1) (free : Pool → Nat) :
    step cfg free r .decode = .error .zeroDivision := by
  have evict : sparseEvict cfg (free .deltakvLatent) (r.append 1) = .error .zeroDivision := by
    have long : ¬ r.seqLen + 1 - (cfg.sinkKeepTokens + r.compressedLen) ≤ 0 := by omega
    simp only [sparseEvict, Row.append, hrecent, if_neg long, if_true]
  show deltakvEvict cfg free (r.append 1) = _
  rw [deltakvEvict, evict]
  rfl

def noRecentConfig : Config :=
  ⟨0, 0, 1, 4, .l2, false, 8, 8, Nat.one_pos, by decide, by decide⟩

/-- A staged prompt of one token. -/
theorem not_ledgerAgrees :
    ¬ ∀ cfg r, Run (fun _ _ => True) cfg r → LedgerAgrees (fun _ _ => True) cfg r := by
  intro agrees
  have clusters : Clusters noRecentConfig := ⟨by decide, by decide⟩
  obtain ⟨r, ok, stepped, settled⟩ := staged_spec (fun _ => 4) 1 (Or.inl clusters)
  have run : Run (fun _ _ => True) noRecentConfig r :=
    .step (fun _ => 4) (.staged 1) .fresh ⟨rfl, Nat.one_pos⟩ trivial ok
  have len : r.seqLen = 1 := stepped.seqLen
  have compressed : r.compressedLen = 1 := by
    rw [(stepped.held.settled settled).compressed, len]
    decide
  have costs : Supplied noRecentConfig (fun _ => 4) r .decode := by
    refine ⟨?_, Nat.zero_le _⟩
    simp only [decodeWindowCosts, Event.size, len, compressed]
    decide
  obtain ⟨r', ok'⟩ := (agrees noRecentConfig r run).evicts .decode (fun _ => 4)
    ⟨settled, by omega⟩ trivial costs
  have raised := decode_zeroDivision noRecentConfig rfl
    (by rw [len, compressed]; decide) fun _ => 4
  exact nomatch raised.symm.trans ok'

end SparseEngine.DeltaKV
