import SparseEngine.DeltaKV.PrefillPlans

/-! Between two chunks of a raw-offload prompt other steps run. -/

namespace SparseEngine.DeltaKV

open PyM List Function Dict Option

variable {cfg : Config} {limits : StagingLimits} {s s' s'' : Manager} {row seqId : Nat}

structure Recorded (r : RowMaps) (w : PlanWrites) : Prop where
  keep : Records r.rawSlots w.keep
  latent : Records r.latentSlots w.latent
  fullKeep : Records r.fullSlots w.fullKeep
  blocks : Records r.kiviBlocks w.blocks

def PlanHolds (cfg : Config) (s : Manager) (row : Nat) : Prop :=
  ∃ w, s.planWrites cfg row = some w ∧ Recorded (s.rows row) w

structure SameRow (cfg : Config) (r r' : RowMaps) : Prop where
  raw : r'.rawSlots = r.rawSlots
  latent : r'.latentSlots = r.latentSlots
  full : cfg.fullLayerKiviEnabled = true → r'.fullSlots = r.fullSlots
  blocks : r'.kiviBlocks = r.kiviBlocks

/-- The stack arrays, the prompts and everything about the rows of `P` are the same. -/
structure Untouched (cfg : Config) (P : Nat → Prop) (s s' : Manager) : Prop where
  full : s'.full.storage = s.full.storage
  latent : s'.latent.storage = s.latent.storage
  blocks : s'.blocks.storage = s.blocks.storage
  prompts : s'.prompts = s.prompts
  rows : ∀ row, P row → SameRow cfg (s.rows row) (s'.rows row)
  sparse : ∀ row, P row → s'.sparsePlans.get? row = s.sparsePlans.get? row
  kivi : ∀ row, P row → s'.kiviPlans.get? row = s.kiviPlans.get? row

theorem SameRow.refl (r : RowMaps) : SameRow cfg r r := ⟨rfl, rfl, fun _ => rfl, rfl⟩

theorem Untouched.refl (P : Nat → Prop) (s : Manager) : Untouched cfg P s s :=
  ⟨rfl, rfl, rfl, rfl, fun _ _ => .refl _, fun _ _ => rfl, fun _ _ => rfl⟩

variable {P : Nat → Prop} {reserve : Nat}

theorem Untouched.trans (h : Untouched cfg P s s') (h' : Untouched cfg P s' s'') :
    Untouched cfg P s s'' where
  full := h'.full.trans h.full
  latent := h'.latent.trans h.latent
  blocks := h'.blocks.trans h.blocks
  prompts := h'.prompts.trans h.prompts
  rows := fun row hrow =>
    ⟨(h'.rows row hrow).raw.trans (h.rows row hrow).raw,
      (h'.rows row hrow).latent.trans (h.rows row hrow).latent,
      fun hk => ((h'.rows row hrow).full hk).trans ((h.rows row hrow).full hk),
      (h'.rows row hrow).blocks.trans (h.rows row hrow).blocks⟩
  sparse := fun row hrow => (h'.sparse row hrow).trans (h.sparse row hrow)
  kivi := fun row hrow => (h'.kivi row hrow).trans (h.kivi row hrow)

theorem planWrites_congr (hsparse : s'.sparsePlans.get? row = s.sparsePlans.get? row)
    (hkivi : s'.kiviPlans.get? row = s.kiviPlans.get? row)
    (hlatent : ∀ plan, s.sparsePlans.get? row = some plan →
      s'.latent.read plan.latentSlots = s.latent.read plan.latentSlots)
    (hviews : cfg.fullLayerKiviEnabled = true → ∀ plan, s.kiviPlans.get? row = some plan →
      s'.full.read plan.keepSlots = s.full.read plan.keepSlots ∧
        s'.blocks.read plan.blockSlots = s.blocks.read plan.blockSlots) :
    s'.planWrites cfg row = s.planWrites cfg row := by
  unfold Manager.planWrites
  rw [hsparse, hkivi]
  cases hplan : s.sparsePlans.get? row with
  | none => rfl
  | some plan =>
    simp only [map_some, hlatent plan hplan]
    cases hk : cfg.fullLayerKiviEnabled with
    | false => rfl
    | true =>
      cases hkp : s.kiviPlans.get? row with
      | none => rfl
      | some kplan =>
        obtain ⟨hfull, hblocks⟩ := hviews hk kplan hkp
        simp only [if_true, map_some, hfull, hblocks]

theorem fullKeep_of_unquantized {w : PlanWrites} (hw : s.planWrites cfg row = some w)
    (hk : cfg.fullLayerKiviEnabled = false) : w.fullKeep = [] := by
  unfold Manager.planWrites at hw
  cases hplan : s.sparsePlans.get? row with
  | none => simp [hplan] at hw
  | some plan =>
    simp only [hplan, map_some, hk, Bool.false_eq_true, if_false, map_none,
      getD_none, Option.some.injEq] at hw
    rw [← hw]

theorem PlanHolds.congr (h : PlanHolds cfg s row)
    (hw : s'.planWrites cfg row = s.planWrites cfg row)
    (hrow : SameRow cfg (s.rows row) (s'.rows row)) : PlanHolds cfg s' row := by
  obtain ⟨w, hsome, hr⟩ := h
  refine ⟨w, hw.trans hsome, hrow.raw ▸ hr.keep, hrow.latent ▸ hr.latent, ?_,
    hrow.blocks ▸ hr.blocks⟩
  cases hk : cfg.fullLayerKiviEnabled with
  | true =>
    rw [hrow.full hk]
    exact hr.fullKeep
  | false =>
    rw [fullKeep_of_unquantized hsome hk]
    exact records_nil _

theorem PlanHolds.untouched (h : PlanHolds cfg s row) (hu : Untouched cfg P s s') (hrow : P row) :
    PlanHolds cfg s' row :=
  h.congr (planWrites_congr (hu.sparse row hrow) (hu.kivi row hrow)
    (fun _ _ => IdStack.read_congr hu.latent) fun _ _ _ =>
      ⟨IdStack.read_congr hu.full, IdStack.read_congr hu.blocks⟩) (hu.rows row hrow)

structure RowsOk (s : Manager) : Prop where
  apart : ∀ q q' row, s.seqIdToRow.get? q = some row → s.seqIdToRow.get? q' = some row → q = q'
  nodup : s.freeRows.Nodup
  free : ∀ q row, s.seqIdToRow.get? q = some row → row ∉ s.freeRows

structure RowsGrown (s s' : Manager) : Prop where
  rows : RowsOk s'
  owners : ∀ q row, s.seqIdToRow.get? q = some row → s'.seqIdToRow.get? q = some row

theorem RowsGrown.of_eq (h : RowsOk s) (ht : s'.seqIdToRow = s.seqIdToRow)
    (hf : s'.freeRows = s.freeRows) : RowsGrown s s' where
  rows := ⟨by rw [ht]; exact h.apart, hf ▸ h.nodup, by rw [ht, hf]; exact h.free⟩
  owners := fun q row hq => ht ▸ hq

theorem wp_getFreeRow (h : RowsOk s) :
    wp (getFreeRow seqId)
      (fun row s' => s'.seqIdToRow.get? seqId = some row ∧ RowsGrown s s' ∧
        s' = { s with seqIdToRow := s'.seqIdToRow, freeRows := s'.freeRows })
      (fun e s' => e ≠ lostPlan ∧ s' = s) s := by
  simp only [getFreeRow, wp_bind, wp_get]
  cases hrow : s.seqIdToRow.get? seqId with
  | some row => exact ⟨hrow, .of_eq h rfl rfl, rfl⟩
  | none =>
    cases hfree : s.freeRows with
    | nil => exact ⟨by simp [lostPlan], rfl⟩
    | cons row rest =>
      simp only [wp_bind, wp_modify, wp_pure]
      obtain ⟨hnew, hrest⟩ := nodup_cons.mp (hfree ▸ h.nodup)
      have used : ∀ q row', s.seqIdToRow.get? q = some row' → row' ≠ row ∧ row' ∉ rest := by
        intro q row' hq
        have := h.free q row' hq
        rw [hfree, mem_cons, not_or] at this
        exact this
      refine ⟨get?_set_self _ _ _, ⟨⟨fun q q' r hq hq' => ?_, hrest, fun q r hq => ?_⟩,
        fun q r hq => ?_⟩, trivial⟩
      · by_cases hqs : q = seqId
        · by_cases hqs' : q' = seqId
          · rw [hqs, hqs']
          · rw [hqs, get?_set_self] at hq
            rw [get?_set_ne _ _ hqs'] at hq'
            cases hq
            exact ((used q' _ hq').1 rfl).elim
        · rw [get?_set_ne _ _ hqs] at hq
          by_cases hqs' : q' = seqId
          · rw [hqs', get?_set_self] at hq'
            cases hq'
            exact ((used q _ hq).1 rfl).elim
          · rw [get?_set_ne _ _ hqs'] at hq'
            exact h.apart q q' r hq hq'
      · by_cases hqs : q = seqId
        · rw [hqs, get?_set_self] at hq
          cases hq
          exact hnew
        · rw [get?_set_ne _ _ hqs] at hq
          exact (used q r hq).2
      · have hqs : q ≠ seqId := by
          rintro rfl
          rw [hrow] at hq
          cases hq
        rw [get?_set_ne _ _ hqs]
        exact hq

theorem nodup_keepPositions (totalLen : Nat) :
    (fullPrefillPlanCpu cfg totalLen).keepPositions.Nodup := by
  simp only [fullPrefillPlanCpu]
  split
  · exact List.nodup_range
  · have hcenter := fun p start stop (hp : p ∈ centerPositions start stop cfg.baseClusterStep) =>
      mem_centerPositions cfg.clusterStep_pos hp
    refine nodup_append.mpr ⟨nodup_append.mpr ⟨List.nodup_range,
      nodup_range' _ cfg.clusterStep_pos, ?_⟩, nodup_range' _ Nat.one_pos, ?_⟩
    · rintro p hp q hq rfl
      have := hcenter p _ _ hq
      rw [List.mem_range] at hp
      omega
    · rintro p hp q hq rfl
      obtain ⟨i, -, rfl⟩ := mem_range'.mp hq
      rcases mem_append.mp hp with hp | hp
      · rw [List.mem_range] at hp
        omega
      · have := hcenter _ _ _ hp
        omega

theorem nodup_kiviKeepPositions (totalLen : Nat) : (kiviKeepPositions cfg totalLen).Nodup := by
  refine nodup_append.mpr ⟨List.nodup_range, nodup_range' _ Nat.one_pos, ?_⟩
  rintro p hp q hq rfl
  obtain ⟨i, -, rfl⟩ := mem_range'.mp hq
  rw [List.mem_range] at hp
  simp only [quantEnd] at hp
  omega

theorem pairwise_range' (g : Nat) : ∀ n a : Nat,
    (range' a n g).Pairwise fun x y => x + g ≤ y
  | 0, a => by simp
  | n + 1, a => by
    rw [range'_succ, pairwise_cons]
    refine ⟨fun y hy => ?_, pairwise_range' g n (a + g)⟩
    obtain ⟨i, -, rfl⟩ := mem_range'.mp hy
    omega

theorem nodup_blockEntries (totalLen : Nat) (ids : List Nat) :
    ((blockEntries cfg (kiviBlockStarts cfg totalLen) ids).map Prod.fst).Nodup := by
  rw [blockEntries, map_flatMap, nodup_flatMap]
  constructor
  · rintro ⟨x, i⟩ -
    rw [List.map_map]
    exact List.nodup_range.map fun o o' h => by simpa using h
  · have hstarts := (pairwise_range' cfg.groupSize
      ((totalLen - min cfg.sinkKeepTokens totalLen - cfg.residualLength) / cfg.groupSize)
      (min cfg.sinkKeepTokens totalLen)).sublist
        (zip_fst_sublist (kiviBlockStarts cfg totalLen) ids)
    refine (pairwise_map.mp hstarts).imp ?_
    rintro ⟨x, i⟩ ⟨y, j⟩ hxy
    intro z hz hz'
    simp only [List.map_map, List.mem_map, List.mem_range, Function.comp_apply] at hz hz'
    obtain ⟨o, ho, rfl⟩ := hz
    obtain ⟨o', -, heq⟩ := hz'
    simp only at hxy
    omega

structure OwnRow (cfg : Config) (row : Nat) (s s' : Manager) : Prop where
  others : Untouched cfg (· ≠ row) s s'
  owners : s'.seqIdToRow = s.seqIdToRow
  freeRows : s'.freeRows = s.freeRows

theorem OwnRow.refl (s : Manager) : OwnRow cfg row s s := ⟨.refl _ s, rfl, rfl⟩

theorem OwnRow.trans (h : OwnRow cfg row s s') (h' : OwnRow cfg row s' s'') :
    OwnRow cfg row s s'' :=
  ⟨h.others.trans h'.others, h'.owners.trans h.owners, h'.freeRows.trans h.freeRows⟩

theorem SameRow.update {f : Nat → RowMaps} {r : RowMaps} {x : Nat} (h : x ≠ row) :
    SameRow cfg (f x) (update f row r x) := by
  rw [update_of_ne h]
  exact .refl _

theorem wp_allocateRaw (cfg : Config) {positions : List Nat} (hpos : positions.Nodup) :
    wp (allocateDeltakvFullPositions reserve row positions)
      (fun ids s' => OwnRow cfg row s s' ∧
        Records (s'.rows row).rawSlots (positions.zip ids))
      (fun e s' => e ≠ lostPlan ∧ s' = s) s := by
  unfold allocateDeltakvFullPositions
  split
  · next h =>
    obtain rfl : positions = [] := by simpa using h
    exact ⟨.refl s, records_nil _⟩
  · simp only [wp_bind, wp_get, wp_raiseIf, wp_modify, wp_pure, Manager.setRow]
    refine ⟨fun _ => ⟨by simp [lostPlan], trivial⟩, fun _ => ⟨⟨⟨rfl, rfl, rfl, rfl,
      fun x hx => .update hx, fun _ _ => rfl, fun _ _ => rfl⟩, rfl, rfl⟩, ?_⟩⟩
    rw [update_self]
    exact records_zip_writeAt hpos

theorem wp_allocateLatent (cfg : Config) {positions : List Nat} (hpos : positions.Nodup) :
    wp (allocateDeltakvLatent row positions)
      (fun view s' => OwnRow cfg row s s' ∧ (s'.rows row).rawSlots = (s.rows row).rawSlots ∧
        Records (s'.rows row).latentSlots (positions.zip (s'.latent.read view)))
      (fun e s' => e ≠ lostPlan ∧ s' = s) s := by
  simp only [allocateDeltakvLatent, wp_bind, wp_get, wp_raiseIf, wp_modify, wp_pure,
    Manager.setRow]
  refine ⟨fun _ => ⟨by simp [lostPlan], trivial⟩, fun _ => ⟨⟨⟨rfl, rfl, rfl, rfl,
    fun x hx => .update hx, fun _ _ => rfl, fun _ _ => rfl⟩, rfl, rfl⟩, ?_, ?_⟩⟩
  · rw [update_self]
  · rw [update_self]
    exact records_zip_writeAt hpos

theorem wp_kiviPlan {totalLen : Nat} :
    wp (prepareFullLayerKiviFullPrefillPlan cfg row totalLen)
      (fun _ s' => OwnRow cfg row s s' ∧ (s'.rows row).rawSlots = (s.rows row).rawSlots ∧
        (s'.rows row).latentSlots = (s.rows row).latentSlots ∧
        s'.sparsePlans = s.sparsePlans ∧ ∃ plan, s'.kiviPlans.get? row = some plan ∧
          Records (s'.rows row).fullSlots (plan.keepPos.zip (s'.full.read plan.keepSlots)) ∧
          Records (s'.rows row).kiviBlocks
            (blockEntries cfg plan.blockStarts (s'.blocks.read plan.blockSlots)))
      (fun e s' => e ≠ lostPlan ∧ OwnRow cfg row s s') s := by
  simp only [prepareFullLayerKiviFullPrefillPlan, allocateFullPositions,
    allocateFullLayerKiviBlocks, wp_bind, wp_get, wp_raiseIf, wp_modify, wp_pure, Manager.setRow]
  refine ⟨fun _ => ⟨by simp [lostPlan], .refl s⟩, fun _ => ⟨fun _ => ⟨by simp [lostPlan],
    ⟨rfl, rfl, rfl, rfl, fun x hx => .update hx, fun _ _ => rfl, fun _ _ => rfl⟩, rfl, rfl⟩,
    fun _ => ⟨⟨⟨rfl, rfl, rfl, rfl, fun x hx => ?_, fun _ _ => rfl, fun x hx => ?_⟩, rfl, rfl⟩,
      ?_, ?_, trivial, _, get?_set_self _ _ _, ?_, ?_⟩⟩⟩
  · simp only [update_of_ne hx]
    exact .refl _
  · exact get?_set_ne _ _ hx
  · simp only [update_self]
  · simp only [update_self]
  · simp only [update_self]
    exact records_zip_writeAt (nodup_kiviKeepPositions totalLen)
  · simp only [update_self]
    exact records_writeAt (nodup_blockEntries totalLen _)

theorem planHolds_of {plan : SparsePlan} (hplan : s.sparsePlans.get? row = some plan)
    (raw : Records (s.rows row).rawSlots (plan.keepPos.zip plan.keepSlots))
    (latent : Records (s.rows row).latentSlots
      (plan.latentPos.zip (s.latent.read plan.latentSlots)))
    (kivi : cfg.fullLayerKiviEnabled = true → ∃ k, s.kiviPlans.get? row = some k ∧
      Records (s.rows row).fullSlots (k.keepPos.zip (s.full.read k.keepSlots)) ∧
      Records (s.rows row).kiviBlocks
        (blockEntries cfg k.blockStarts (s.blocks.read k.blockSlots))) :
    PlanHolds cfg s row := by
  cases hk : cfg.fullLayerKiviEnabled with
  | false =>
    have hwrites : s.planWrites cfg row = some
        { keep := plan.keepPos.zip plan.keepSlots
          latent := plan.latentPos.zip (s.latent.read plan.latentSlots)
          fullKeep := []
          blocks := [] } := by
      simp [Manager.planWrites, hplan, hk]
    exact ⟨_, hwrites, raw, latent, records_nil _, records_nil _⟩
  | true =>
    obtain ⟨k, hkplan, hfull, hblocks⟩ := kivi hk
    have hwrites : s.planWrites cfg row = some
        { keep := plan.keepPos.zip plan.keepSlots
          latent := plan.latentPos.zip (s.latent.read plan.latentSlots)
          fullKeep := k.keepPos.zip (s.full.read k.keepSlots)
          blocks := blockEntries cfg k.blockStarts (s.blocks.read k.blockSlots) } := by
      simp [Manager.planWrites, hplan, hk, hkplan]
    exact ⟨_, hwrites, raw, latent, hfull, hblocks⟩

theorem wp_preparePlan {totalLen : Nat} :
    wp (prepareFullPrefillStagingPlan cfg limits reserve row totalLen)
      (fun _ s' => PlanHolds cfg s' row ∧ OwnRow cfg row s s')
      (fun e s' => e ≠ lostPlan ∧ OwnRow cfg row s s') s := by
  simp only [prepareFullPrefillStagingPlan, wp_bind, wp_raiseIf]
  refine ⟨fun _ => ⟨by simp [lostPlan], .refl s⟩, fun _ => ?_⟩
  refine wp_mono (wp_allocateRaw cfg (nodup_keepPositions totalLen)) ?_ ?_
  · rintro keepSlots s₁ ⟨hown₁, hraw⟩
    refine wp_mono (wp_allocateLatent cfg (nodup_range' _ Nat.one_pos)) ?_ ?_
    · rintro latentSlots s₂ ⟨hown₂, hsame₂, hlatent⟩
      simp only [wp_modify]
      set plan : SparsePlan :=
        { totalLen
          keepPos := (fullPrefillPlanCpu cfg totalLen).keepPositions
          keepSlots
          latentPos := range' (fullPrefillPlanCpu cfg totalLen).evictStart
            ((fullPrefillPlanCpu cfg totalLen).evictEnd -
              (fullPrefillPlanCpu cfg totalLen).evictStart)
          latentSlots }
      set s₃ : Manager := { s₂ with sparsePlans := s₂.sparsePlans.set row plan }
      have hown₃ : OwnRow cfg row s s₃ := (hown₁.trans hown₂).trans
        ⟨⟨rfl, rfl, rfl, rfl, fun _ _ => .refl _, fun x hx => get?_set_ne _ _ hx,
          fun _ _ => rfl⟩, rfl, rfl⟩
      have hplan₃ : s₃.sparsePlans.get? row = some plan := get?_set_self _ _ _
      have hraw₃ : Records (s₃.rows row).rawSlots (plan.keepPos.zip plan.keepSlots) := by
        show Records (s₂.rows row).rawSlots _
        rw [hsame₂]
        exact hraw
      cases hk : cfg.fullLayerKiviEnabled with
      | false => exact ⟨planHolds_of hplan₃ hraw₃ hlatent (by simp [hk]), hown₃⟩
      | true =>
        refine wp_mono (wp_kiviPlan (s := s₃)) ?_ ?_
        · rintro - s₄ ⟨hown₄, hraw₄, hlatent₄, hsparse₄, hkivi⟩
          refine ⟨planHolds_of (hsparse₄ ▸ hplan₃) (hraw₄ ▸ hraw₃) ?_ fun _ => hkivi,
            hown₃.trans hown₄⟩
          rw [hlatent₄, IdStack.read_congr hown₄.others.latent]
          exact hlatent
        · rintro e s₄ ⟨he, hown₄⟩
          exact ⟨he, hown₃.trans hown₄⟩
    · rintro e s₂ ⟨he, rfl⟩
      exact ⟨he, hown₁⟩
  · rintro e s₁ ⟨he, rfl⟩
    exact ⟨he, .refl _⟩

theorem wp_allocateFull (h : RowsOk s) {size : Nat} :
    wp (allocateFull cfg limits seqId size)
      (fun row s' => s'.seqIdToRow.get? seqId = some row ∧ RowsGrown s s' ∧
        Untouched cfg (fun _ => True) s s')
      (fun e s' => e ≠ lostPlan ∧ RowsGrown s s' ∧ Untouched cfg (fun _ => True) s s') s := by
  have hself : RowsGrown s s := .of_eq h rfl rfl
  have hrow : ∀ s₁ : Manager, s₁ = { s with
      seqIdToRow := s₁.seqIdToRow, freeRows := s₁.freeRows } →
      Untouched cfg (fun _ => True) s s₁ := by
    intro s₁ hs₁
    rw [hs₁]
    exact ⟨rfl, rfl, rfl, rfl, fun _ _ => .refl _, fun _ _ => rfl, fun _ _ => rfl⟩
  simp only [allocateFull, wp_bind, wp_get]
  cases hk : cfg.fullLayerKiviEnabled with
  | true =>
    simp only [if_true, wp_bind, wp_raiseIf]
    refine ⟨fun _ => ⟨by simp [lostPlan], hself, .refl _ _⟩, fun _ => ?_⟩
    refine wp_mono (wp_getFreeRow h) ?_ ?_
    · rintro row s₁ ⟨hget, hgrown, hs₁⟩
      exact ⟨hget, hgrown, hrow s₁ hs₁⟩
    · rintro e s₁ ⟨he, rfl⟩
      exact ⟨he, hself, .refl _ _⟩
  | false =>
    simp only [Bool.false_eq_true, if_false, wp_bind, wp_raiseIf]
    refine ⟨fun _ => ⟨by simp [lostPlan], hself, .refl _ _⟩, fun _ =>
      ⟨fun _ => ⟨by simp [lostPlan], hself, .refl _ _⟩, fun _ => ?_⟩⟩
    refine wp_mono (wp_getFreeRow h) ?_ ?_
    · rintro row s₁ ⟨hget, hgrown, hs₁⟩
      simp only [wp_modify, wp_pure]
      refine ⟨hget, ⟨⟨hgrown.rows.apart, hgrown.rows.nodup, hgrown.rows.free⟩, hgrown.owners⟩,
        (hrow s₁ hs₁).trans ⟨rfl, rfl, rfl, rfl, fun x _ => ?_, fun _ _ => rfl, fun _ _ => rfl⟩⟩
      simp only [Manager.setRow]
      by_cases hx : x = row
      · subst hx
        rw [update_self]
        exact ⟨rfl, rfl, fun hno => (Bool.false_ne_true (hk.symm.trans hno)).elim, rfl⟩
      · exact .update hx
    · rintro e s₁ ⟨he, rfl⟩
      exact ⟨he, hself, .refl _ _⟩

/-- A prompt between its chunks has a row that holds what it plans to write. -/
structure PlansOk (cfg : Config) (s : Manager) : Prop where
  rows : RowsOk s
  holds : ∀ q p, s.prompts.get? q = some p → 0 < p.prefilled ∧
    ∃ row, s.seqIdToRow.get? q = some row ∧ PlanHolds cfg s row

theorem PlansOk.untouched (h : PlansOk cfg s) (hg : RowsGrown s s') (hu : Untouched cfg P s s')
    (hP : ∀ q p row, s.prompts.get? q = some p → s.seqIdToRow.get? q = some row → P row) :
    PlansOk cfg s' where
  rows := hg.rows
  holds := fun q p hq => by
    rw [hu.prompts] at hq
    obtain ⟨hpos, row, hrow, hplan⟩ := h.holds q p hq
    exact ⟨hpos, row, hg.owners q row hrow, hplan.untouched hu (hP q p row hq hrow)⟩

def SparesChunk (s : Manager) (seqId total size : Nat) : Prop :=
  total ≤ ((s.prompts.get? seqId).map (·.prefilled)).getD 0 + size →
    ∀ q p, s.prompts.get? q = some p → q = seqId

theorem wp_offloadChunk {total size : Nat} (h : PlansOk cfg s) (hsize : 0 < size) :
    wp (offloadChunk cfg limits reserve seqId total size)
      (fun r s' => (SparesChunk s seqId total size → PlansOk cfg s') ∧ ∀ w, r = some w →
        ∃ row, s'.seqIdToRow.get? seqId = some row ∧ Recorded (s'.rows row) w)
      (fun e s' => PlansOk cfg s' ∧ e ≠ lostPlan) s := by
  simp only [offloadChunk, wp_bind, wp_get, wp_raiseIf]
  refine ⟨fun _ => ⟨h, by simp [lostPlan]⟩, fun _ => ⟨fun _ => ⟨h, by simp [lostPlan]⟩,
    fun _ => ?_⟩⟩
  refine wp_mono (wp_allocateFull h.rows) ?_ ?_
  swap
  · rintro e s₁ ⟨he, hg, hu⟩
    exact ⟨h.untouched hg hu fun _ _ _ _ _ => trivial, he⟩
  rintro row s₁ ⟨hget, hg, hu⟩
  have h₁ : PlansOk cfg s₁ := h.untouched hg hu fun _ _ _ _ _ => trivial
  refine ⟨fun _ => ⟨h₁, by simp [lostPlan]⟩, fun _ => ?_⟩
  set start := ((s.prompts.get? seqId).map (·.prefilled)).getD 0 with hstart
  -- The prompts other than this one have other rows.
  have hother : ∀ q p row', s₁.prompts.get? q = some p → s₁.seqIdToRow.get? q = some row' →
      q ≠ seqId → row' ≠ row := by
    rintro q p row' - hq hne rfl
    exact hne (h₁.rows.apart q seqId _ hq hget)
  -- What is left: the row has its plan, and the chunk is counted.
  have hfinish : ∀ s₂ : Manager, PlanHolds cfg s₂ row → OwnRow cfg row s₁ s₂ →
      wp (finishChunk cfg row seqId total start size)
        (fun r s' => (SparesChunk s seqId total size → PlansOk cfg s') ∧ ∀ w, r = some w →
          ∃ row, s'.seqIdToRow.get? seqId = some row ∧ Recorded (s'.rows row) w)
        (fun e s' => PlansOk cfg s' ∧ e ≠ lostPlan) s₂ := by
    intro s₂ hplan hown
    have hrows₂ : RowsOk s₂ := (RowsGrown.of_eq h₁.rows hown.owners hown.freeRows).rows
    have hget₂ : s₂.seqIdToRow.get? seqId = some row := hown.owners ▸ hget
    simp only [finishChunk, wp_bind, wp_modify]
    set s₃ := s₂.setRow row fun r => { r with seqLen := r.seqLen + size } with hs₃
    have hcount : Untouched cfg (fun _ => True) s₂ s₃ := by
      refine ⟨rfl, rfl, rfl, rfl, fun x _ => ?_, fun _ _ => rfl, fun _ _ => rfl⟩
      simp only [hs₃, Manager.setRow]
      by_cases hx : x = row
      · subst hx
        rw [update_self]
        exact ⟨rfl, rfl, fun _ => rfl, rfl⟩
      · exact .update hx
    have hplan₃ : PlanHolds cfg s₃ row := hplan.untouched hcount trivial
    split
    · next hlast =>
      simp only [wp_bind, wp_get, wp_modify, wp_pure]
      refine ⟨fun hspares => ⟨⟨hrows₂.apart, hrows₂.nodup, hrows₂.free⟩, fun q p hq => ?_⟩,
        fun w hw => ?_⟩
      · have hq : (s₂.prompts.erase seqId).get? q = some p := hq
        by_cases hne : q = seqId
        · rw [hne, get?_erase_self] at hq
          cases hq
        · rw [get?_erase_ne _ hne, hown.others.prompts, hu.prompts] at hq
          exact (hne (hspares hlast q p hq)).elim
      · obtain ⟨w', hw', hrec⟩ := hplan₃
        obtain rfl : w' = w := Option.some.inj (hw'.symm.trans hw)
        exact ⟨row, hget₂, hrec⟩
    · simp only [wp_bind, wp_modify, wp_pure]
      refine ⟨fun _ => ⟨⟨hrows₂.apart, hrows₂.nodup, hrows₂.free⟩, fun q p hq => ?_⟩,
        fun w hw => by cases hw⟩
      have hq : (s₂.prompts.set seqId ⟨total, start + size⟩).get? q = some p := hq
      have hsame : ∀ row', PlanHolds cfg s₃ row' →
          PlanHolds cfg { s₃ with prompts := s₂.prompts.set seqId ⟨total, start + size⟩ } row' :=
        fun row' hr => hr
      by_cases hne : q = seqId
      · subst hne
        rw [get?_set_self] at hq
        cases hq
        exact ⟨by show 0 < start + size; omega, row, hget₂, hsame row hplan₃⟩
      · rw [get?_set_ne _ _ hne, hown.others.prompts] at hq
        obtain ⟨hpos, row', hrow', hplan'⟩ := h₁.holds q p hq
        refine ⟨hpos, row', hown.owners ▸ hrow', hsame row' ?_⟩
        exact (hplan'.untouched hown.others (hother q p row' hq hrow' hne)).untouched hcount trivial
  cases hprompt : s.prompts.get? seqId with
  | none =>
    have hzero : start = 0 := by rw [hstart, hprompt]; rfl
    have hnot : ∀ q p row', s₁.prompts.get? q = some p → s₁.seqIdToRow.get? q = some row' →
        row' ≠ row := by
      intro q p row' hq hrow'
      refine hother q p row' hq hrow' ?_
      rintro rfl
      rw [hu.prompts, hprompt] at hq
      cases hq
    rw [if_pos hzero, wp_bind]
    refine wp_mono wp_preparePlan ?_ ?_
    · rintro - s₂ ⟨hplan, hown⟩
      exact hfinish s₂ hplan hown
    · rintro e s₂ ⟨he, hown⟩
      exact ⟨h₁.untouched (.of_eq h₁.rows hown.owners hown.freeRows) hown.others hnot, he⟩
  | some p =>
    obtain ⟨hpos, row', hrow', hplan⟩ := h₁.holds seqId p (hu.prompts ▸ hprompt)
    obtain rfl : row' = row := Option.some.inj (hrow'.symm.trans hget)
    have hne : start ≠ 0 := by
      rw [hstart, hprompt]
      exact hpos.ne'
    rw [if_neg hne]
    simp only [wp_bind, wp_get, wp_raiseIf]
    refine ⟨fun hno => ?_, fun _ => hfinish s₁ hplan (.refl s₁)⟩
    obtain ⟨w, hw, -⟩ := hplan
    rw [isNone_iff_eq_none] at hno
    simp [Manager.planWrites, hno] at hw

/-- What `free_seq` returns stays below the views of the plans of other prompts. -/
def SparesFree (cfg : Config) (s : Manager) (seqId : Nat) : Prop :=
  ∀ row, s.seqIdToRow.get? seqId = some row → ∀ q p row', q ≠ seqId →
    s.prompts.get? q = some p → s.seqIdToRow.get? q = some row' →
      (∀ plan, s.sparsePlans.get? row' = some plan →
        s.latent.Clear (s.freedLatent row).length plan.latentSlots) ∧
      (cfg.fullLayerKiviEnabled = true → ∀ plan, s.kiviPlans.get? row' = some plan →
        s.full.Clear (s.freedFull cfg row).length plan.keepSlots ∧
          s.blocks.Clear (s.freedBlocks cfg row).length plan.blockSlots)

theorem keeps_freeSeq {freedRaw : List Nat} (h : PlansOk cfg s) (hspares : SparesFree cfg s seqId) :
    Keeps (PlansOk cfg) (freeSeq cfg seqId freedRaw) s := by
  -- The prompt of the sequence is gone in every outcome.
  have prompt : ∀ q p, (s.prompts.erase seqId).get? q = some p →
      q ≠ seqId ∧ s.prompts.get? q = some p := by
    intro q p hq
    have hne : q ≠ seqId := by
      rintro rfl
      rw [get?_erase_self] at hq
      cases hq
    exact ⟨hne, by rwa [get?_erase_ne _ hne] at hq⟩
  simp only [Keeps, freeSeq, wp_bind, wp_get, wp_modify]
  cases hrow : s.seqIdToRow.get? seqId with
  | none =>
    refine ⟨⟨h.rows.apart, h.rows.nodup, h.rows.free⟩, fun q p hq => ?_⟩
    exact h.holds q p (prompt q p hq).2
  | some row =>
    have owner : ∀ q row', (s.seqIdToRow.erase seqId).get? q = some row' →
        q ≠ seqId ∧ s.seqIdToRow.get? q = some row' := by
      intro q row' hq
      have hne : q ≠ seqId := by
        rintro rfl
        rw [get?_erase_self] at hq
        cases hq
      exact ⟨hne, by rwa [get?_erase_ne _ hne] at hq⟩
    have other : ∀ q row', q ≠ seqId → s.seqIdToRow.get? q = some row' → row' ≠ row := by
      rintro q row' hne hq rfl
      exact hne (h.rows.apart q seqId row' hq hrow)
    simp only [wp_bind, wp_modify, wp_raiseIf]
    refine ⟨fun _ => ⟨⟨fun q q' x hq hq' => ?_, h.rows.nodup, fun q x hq => ?_⟩,
      fun q p hq => ?_⟩, fun _ => ⟨⟨fun q q' x hq hq' => ?_, ?_, fun q x hq => ?_⟩,
        fun q p hq => ?_⟩⟩
    · exact h.rows.apart q q' x (owner q x hq).2 (owner q' x hq').2
    · exact h.rows.free q x (owner q x hq).2
    · obtain ⟨hne, hq⟩ := prompt q p hq
      obtain ⟨hpos, row', hrow', hplan⟩ := h.holds q p hq
      exact ⟨hpos, row', (get?_erase_ne _ hne).trans hrow', hplan⟩
    · exact h.rows.apart q q' x (owner q x hq).2 (owner q' x hq').2
    · refine nodup_append.mpr ⟨h.rows.nodup, nodup_singleton row, ?_⟩
      rintro x hx y hy rfl
      rw [mem_singleton] at hy
      exact h.rows.free seqId row hrow (hy ▸ hx)
    · obtain ⟨hne, hq⟩ := owner q x hq
      intro hx
      rcases mem_append.mp hx with hx | hx
      · exact h.rows.free q x hq hx
      · exact other q x hne hq (mem_singleton.mp hx)
    · obtain ⟨hne, hq⟩ := prompt q p hq
      obtain ⟨hpos, row', hrow', hplan⟩ := h.holds q p hq
      have hne' := other q row' hne hrow'
      obtain ⟨hlatent, hkivi⟩ := hspares row hrow q p row' hne hq hrow'
      refine ⟨hpos, row', (get?_erase_ne _ hne).trans hrow', hplan.congr ?_ ?_⟩
      · refine planWrites_congr (get?_erase_ne _ hne') (get?_erase_ne _ hne')
          (fun plan hp => IdStack.read_push (hlatent plan hp)) fun hk plan hp => ?_
        exact ⟨IdStack.read_push (hkivi hk plan hp).1, IdStack.read_push (hkivi hk plan hp).2⟩
      · exact .update hne'

/-- Any other step drops the plans. -/
structure OtherStep (s s' : Manager) : Prop where
  rows : RowsOk s'
  prompts : s'.prompts = s.prompts
  dropped : ∀ q p row, s'.prompts.get? q = some p → s'.seqIdToRow.get? q = some row →
    s'.sparsePlans.get? row = none ∧ s'.kiviPlans.get? row = none

inductive PlanEvent where
  | offloadChunk (reserve seqId total size : Nat)
  | freeSeq (seqId : Nat) (freedRaw : List Nat)
  | other

inductive PlanStep (cfg : Config) (limits : StagingLimits) (s : Manager) :
    PlanEvent → Manager → Prop
  | offloadChunk {reserve seqId total size : Nat} : 0 < size →
      (∀ p, s.prompts.get? seqId = some p → p.total = total) →
      PlanStep cfg limits s (.offloadChunk reserve seqId total size)
        (DeltaKV.offloadChunk cfg limits reserve seqId total size s).2
  | freeSeq {seqId : Nat} {freedRaw : List Nat} :
      PlanStep cfg limits s (.freeSeq seqId freedRaw) (DeltaKV.freeSeq cfg seqId freedRaw s).2
  | other {s' : Manager} : OtherStep s s' → PlanStep cfg limits s .other s'

def SparesPlans (cfg : Config) (s : Manager) : PlanEvent → Prop
  | .offloadChunk _ seqId total size => SparesChunk s seqId total size
  | .freeSeq seqId _ => SparesFree cfg s seqId
  | .other => ∀ q, s.prompts.get? q = none

structure FreshManager (s : Manager) : Prop where
  rows : s.seqIdToRow = .empty
  freeRows : s.freeRows.Nodup
  prompts : s.prompts = .empty
  sparsePlans : s.sparsePlans = .empty
  kiviPlans : s.kiviPlans = .empty

inductive PlanReachable (cfg : Config) (limits : StagingLimits) : Manager → Prop
  | start {s : Manager} : FreshManager s → PlanReachable cfg limits s
  | step {s s' : Manager} {e : PlanEvent} : PlanReachable cfg limits s →
      PlanStep cfg limits s e s' → PlanReachable cfg limits s'

inductive SparedRun (cfg : Config) (limits : StagingLimits) : Manager → Prop
  | start {s : Manager} : FreshManager s → SparedRun cfg limits s
  | step {s s' : Manager} {e : PlanEvent} : SparedRun cfg limits s →
      PlanStep cfg limits s e s' → SparesPlans cfg s e → SparedRun cfg limits s'

/-- The next chunk of any raw-offload prompt finds its plan, and the ids that the last one writes
through the plan are those that the row maps record. -/
def ChunkSound (cfg : Config) (limits : StagingLimits) (s : Manager) : Prop :=
  ∀ reserve seqId total size, 0 < size →
    (∀ p, s.prompts.get? seqId = some p → p.total = total) →
    wp (offloadChunk cfg limits reserve seqId total size)
      (fun r s' => ∀ w, r = some w →
        ∃ row, s'.seqIdToRow.get? seqId = some row ∧ Recorded (s'.rows row) w)
      (fun e _ => e ≠ lostPlan) s

theorem FreshManager.plansOk (h : FreshManager s) : PlansOk cfg s where
  rows := ⟨by rw [h.rows]; simp, h.freeRows, by rw [h.rows]; simp⟩
  holds := fun q p hq => by
    rw [h.prompts] at hq
    cases hq

theorem PlansOk.step {e : PlanEvent} (h : PlansOk cfg s) (hstep : PlanStep cfg limits s e s')
    (hspares : SparesPlans cfg s e) : PlansOk cfg s' := by
  cases hstep with
  | @offloadChunk reserve seqId total size hsize _ =>
    have hkeeps : Keeps (PlansOk cfg)
        (DeltaKV.offloadChunk cfg limits reserve seqId total size) s :=
      wp_mono (wp_offloadChunk h hsize) (fun _ _ h' => h'.1 hspares) fun _ _ h' => h'.1
    exact keeps_iff.mp hkeeps
  | freeSeq => exact keeps_iff.mp (keeps_freeSeq h hspares)
  | other ho =>
    refine ⟨ho.rows, fun q p hq => ?_⟩
    rw [ho.prompts, hspares q] at hq
    cases hq

theorem SparedRun.plansOk (h : SparedRun cfg limits s) : PlansOk cfg s := by
  induction h with
  | start hfresh => exact hfresh.plansOk
  | step _ hstep hspares ih => exact ih.step hstep hspares

theorem SparedRun.reachable (h : SparedRun cfg limits s) : PlanReachable cfg limits s := by
  induction h with
  | start hfresh => exact .start hfresh
  | step _ hstep _ ih => exact .step ih hstep

/-- In every run whose steps spare the plans of the prompts that are between their chunks, every
chunk finds its plan and the last one writes the ids that the row maps record. -/
theorem chunkSound_of_spared (h : SparedRun cfg limits s) : ChunkSound cfg limits s :=
  fun _ _ _ _ hsize _ =>
    wp_mono (wp_offloadChunk h.plansOk hsize) (fun _ _ h' => h'.2) fun _ _ h' => h'.2

def overwriteConfig : Config where
  sinkKeepTokens := 0
  recentKeepTokens := 1
  baseClusterStep := 1
  deltakvNeighborCount := 1
  clusterMetric := .l2
  fullLayerKiviEnabled := false
  groupSize := 1
  residualLength := 1
  clusterStep_pos := Nat.one_pos
  group_pos := Nat.one_pos
  residual_pos := Nat.one_pos

def overwriteLimits : StagingLimits := ⟨8, 8⟩

def overwriteStart : Manager where
  full := ⟨id, 16⟩
  raw := ⟨id, 16⟩
  latent := ⟨id, 6⟩
  blocks := ⟨id, 0⟩
  freeRows := [0, 1]

def overwriteChunk (seqId size : Nat) (s : Manager) : Manager :=
  (offloadChunk overwriteConfig overwriteLimits 0 seqId 3 size s).2

def overwriteBetween : Manager :=
  overwriteChunk 1 2 (overwriteChunk 0 1 (overwriteChunk 0 2 overwriteStart))

def overwriteFreed : Manager :=
  (freeSeq overwriteConfig 0 [13, 14, 15] overwriteBetween).2

theorem sparedRun_overwriteBetween :
    SparedRun overwriteConfig overwriteLimits overwriteBetween := by
  have hstart : FreshManager overwriteStart := ⟨rfl, by decide, rfl, rfl, rfl⟩
  have hfirst : SparedRun overwriteConfig overwriteLimits (overwriteChunk 0 2 overwriteStart) := by
    refine .step (.start hstart) (.offloadChunk (by decide) fun p hp => by cases hp) ?_
    intro _ q p hq
    cases hq
  have hsecond : SparedRun overwriteConfig overwriteLimits
      (overwriteChunk 0 1 (overwriteChunk 0 2 overwriteStart)) := by
    refine .step hfirst (.offloadChunk (by decide) fun p hp => ?_) ?_
    · have : (overwriteChunk 0 2 overwriteStart).prompts.get? 0 = some ⟨3, 2⟩ := rfl
      rw [this] at hp
      cases hp
      rfl
    · intro _ q p hq
      have hkeys : (overwriteChunk 0 2 overwriteStart).prompts.keys = [0] := rfl
      have := mem_keys.mpr ⟨p, hq⟩
      rw [hkeys] at this
      simpa using this
  refine .step hsecond (.offloadChunk (by decide) fun p hp => ?_) ?_
  · have : (overwriteChunk 0 1 (overwriteChunk 0 2 overwriteStart)).prompts.get? 1 = none := rfl
    rw [this] at hp
    cases hp
  · intro hlast
    exact absurd hlast (by decide)

/-- Between its chunks the second prompt is sound. -/
theorem chunkSound_between : ChunkSound overwriteConfig overwriteLimits overwriteBetween :=
  chunkSound_of_spared sparedRun_overwriteBetween

/-- The latent slots of the first sequence are pushed onto the stack where the plan of the second prompt has its view. -/
theorem not_chunkSound :
    ¬ ∀ cfg limits s, PlanReachable cfg limits s → ChunkSound cfg limits s := by
  intro hall
  have hfreed : PlanReachable overwriteConfig overwriteLimits overwriteFreed :=
    .step sparedRun_overwriteBetween.reachable .freeSeq
  have hrun : ∃ w s', offloadChunk overwriteConfig overwriteLimits 0 1 3 1 overwriteFreed =
      (.ok (some w), s') ∧ w.latent = [(0, 4), (1, 5)] ∧ s'.seqIdToRow.get? 1 = some 1 ∧
        (s'.rows 1).latentSlots 0 = some 2 :=
    ⟨_, _, rfl, rfl, rfl, rfl⟩
  obtain ⟨w, s', hok, hlatent, hget, hmap⟩ := hrun
  have hsound := hall _ _ _ hfreed 0 1 3 1 (by decide) fun p hp => by
    have : overwriteFreed.prompts.get? 1 = some ⟨3, 2⟩ := rfl
    rw [this] at hp
    cases hp
    rfl
  rw [wp_of_ok hok] at hsound
  obtain ⟨row, hrow, hrec⟩ := hsound w rfl
  obtain rfl : row = 1 := Option.some.inj (hrow.symm.trans hget)
  have hzero := hrec.latent (0, 4) (by rw [hlatent]; simp)
  rw [hmap] at hzero
  cases hzero

end SparseEngine.DeltaKV
