import SparseEngine.Chain.Accounting

/-! `chain_apply_admission` demotes or evicts the victims of its plan, makes the chain ACTIVE and
restores it when it lives on the host. -/

namespace SparseEngine.ChainRuntime

open PyM List Dict ChainCacheIndex ChainOffload

variable {ι φ δ μ κ : Type} [LinearOrder ι]

variable {hooks : ChainManager μ κ} {cfg : ChainRuntimeConfig φ δ} {busy : List ι}
  {s s' : ChainRuntime ι φ δ μ κ} {id : ι} {r q : ChainRecord ι φ δ}

section

variable {plan : ChainAdmissionPlan ι}

/-- The two records are at the same point of the conversation. -/
structure SameTurn (r r' : ChainRecord ι φ δ) : Prop where
  tokenIds : r'.tokenIds = r.tokenIds
  state : r'.state = r.state
  seqId : r'.seqId = r.seqId
  processedTokenCount : r'.processedTokenCount = r.processedTokenCount

omit [LinearOrder ι] in
theorem SameTurn.refl (r : ChainRecord ι φ δ) : SameTurn r r := ⟨rfl, rfl, rfl, rfl⟩

/-- Only the records of `ids` changed, and they are at the same turn. -/
structure Demoted (ids : List ι) (i i' : ChainCacheIndex ι φ δ) : Prop where
  others : ∀ k, k ∉ ids → i'.records.get? k = i.records.get? k
  records : ∀ k r', i'.records.get? k = some r' → ∃ r, i.records.get? k = some r ∧ SameTurn r r'
  present : ∀ k r, i.records.get? k = some r → ∃ r', i'.records.get? k = some r'
  tombstones : i'.tombstones = i.tombstones

theorem Demoted.refl (ids : List ι) (i : ChainCacheIndex ι φ δ) : Demoted ids i i :=
  ⟨fun _ _ => rfl, fun _ r hr => ⟨r, hr, .refl r⟩, fun _ r hr => ⟨r, hr⟩, rfl⟩

theorem Demoted.cons {ids : List ι} {i i₁ i₂ : ChainCacheIndex ι φ δ} (h : Demoted [id] i i₁)
    (h' : Demoted ids i₁ i₂) : Demoted (id :: ids) i i₂ := by
  refine ⟨fun k hk => ?_, fun k r₂ hr₂ => ?_, fun k r hr => ?_, h'.tombstones.trans h.tombstones⟩
  · rw [mem_cons, not_or] at hk
    rw [h'.others k hk.2, h.others k fun hmem => hk.1 (mem_singleton.mp hmem)]
  · obtain ⟨r₁, hr₁, hsame'⟩ := h'.records k r₂ hr₂
    obtain ⟨r, hr, hsame⟩ := h.records k r₁ hr₁
    exact ⟨r, hr, hsame'.tokenIds.trans hsame.tokenIds, hsame'.state.trans hsame.state,
      hsame'.seqId.trans hsame.seqId, hsame'.processedTokenCount.trans hsame.processedTokenCount⟩
  · obtain ⟨r₁, hr₁⟩ := h.present k r hr
    exact h'.present k r₁ hr₁

/-- An idle chain with a finished copy and no residency may be counted off the device. -/
theorem Accounts.demote (h : Accounts hooks cfg [] s) (hr : s.index.records.get? id = some r)
    (hidle : r.state = .idle) (hstatus : s.offload.status r.seqId = some true)
    (hres : hooks.hasResidency s.manager r.seqId = false) :
    Accounts hooks cfg []
        { s with index := setRecord { r with residentRows := 0 } s.index } ∧
      Demoted [id] s.index (setRecord { r with residentRows := 0 } s.index) := by
  have hid := h.index.keys id r hr
  have hrecords : (setRecord { r with residentRows := 0 } s.index).records =
      s.index.records.set id { r with residentRows := 0 } := by
    rw [← hid]
    rfl
  have hget : ∀ k, (setRecord { r with residentRows := 0 } s.index).records.get? k =
      if k = id then some { r with residentRows := 0 } else s.index.records.get? k := by
    intro k
    rw [hrecords, get?_set]
  refine ⟨h.rewrite (r := r) (q := { r with residentRows := 0 })
    (h.index.setRecord hr hid rfl rfl rfl) ⟨hr, hid, rfl, hrecords, rfl, rfl⟩
    fun _ => .inl ⟨rfl, hidle, hstatus, hres⟩, fun k hk => ?_, fun k r' hr' => ?_, fun k q hq => ?_, rfl⟩
  · rw [hget, if_neg fun heq => hk (mem_singleton.mpr heq)]
  · rw [hget] at hr'
    split at hr'
    · next heq =>
      cases hr'
      exact ⟨r, heq ▸ hr, rfl, rfl, rfl, rfl⟩
    · exact ⟨r', hr', .refl r'⟩
  · rw [hget]
    split
    · exact ⟨_, rfl⟩
    · exact ⟨q, hq⟩

theorem demoteVictim_spec (hl : hooks.Lawful) (h : Accounts hooks cfg [] s) (id : ι) :
    wp (demoteVictim hooks id)
      (fun _ s' => Accounts hooks cfg [] s' ∧ Demoted [id] s.index s'.index)
      (fun _ s' => Accounts hooks cfg [] s' ∧ s'.index = s.index) s := by
  unfold demoteVictim
  rw [wp_bind, wp_onIndex]
  refine wp_mono (lookup_spec id) ?_ ?_
  · rintro r index ⟨rfl, hr⟩
    rw [wp_bind, wp_raiseIf]
    refine ⟨fun _ => ⟨h, rfl⟩, fun hidle => ?_⟩
    rw [wp_bind, wp_onOffload]
    refine wp_mono (wait_spec h.offload r.seqId) ?_ ?_
    · rintro snapshot o ⟨hinv, hsettled, hs, hc, hget⟩
      have h₁ := h.settle hinv hsettled
      rw [wp_bind, wp_raiseIf]
      refine ⟨fun _ => ⟨h₁, rfl⟩, fun hvalid => ?_⟩
      rw [wp_bind, wp_onManager, wp_modify, writeRecord, wp_onIndex, wp_modify]
      have h₂ : Accounts hooks cfg [] { s with offload := o, manager := hooks.freeSeq r.seqId s.manager } :=
        h₁.manage fun _ q _ _ _ hres => (hl.freeSeq r.seqId s.manager q.seqId hres).2
      refine h₂.demote hr (not_not.mp hidle) ?_ ?_
      · show o.status r.seqId = some true
        unfold status
        rw [hs, Option.map_some, Bool.eq_true_of_not_eq_false hvalid, Bool.or_true]
      · by_contra hyes
        rw [Bool.not_eq_false] at hyes
        exact (hl.freeSeq r.seqId s.manager r.seqId hyes).1 rfl
    · rintro e o ⟨-, rfl, -⟩
      exact ⟨h, rfl⟩
  · rintro e index ⟨rfl, -⟩
    exact ⟨h, rfl⟩

/-- Raising or not, only records of victims have changed. -/
theorem demoteVictims_spec (hl : hooks.Lawful) : ∀ (ids : List ι) (s : ChainRuntime ι φ δ μ κ),
    Accounts hooks cfg [] s →
    wp (forEach (demoteVictim hooks) ids)
      (fun _ s' => Accounts hooks cfg [] s' ∧ Demoted ids s.index s'.index)
      (fun _ s' => Accounts hooks cfg [] s' ∧ Demoted ids s.index s'.index) s
  | [], s, h => ⟨h, .refl _ _⟩
  | id :: ids, s, h => by
    rw [forEach, wp_bind]
    refine wp_mono (demoteVictim_spec hl h id) ?_ ?_
    · rintro - s₁ ⟨h₁, hdem⟩
      refine wp_mono (demoteVictims_spec hl ids s₁ h₁) ?_ ?_
      · rintro - s₂ ⟨h₂, hdem₂⟩
        exact ⟨h₂, hdem.cons hdem₂⟩
      · rintro - s₂ ⟨h₂, hdem₂⟩
        exact ⟨h₂, hdem.cons hdem₂⟩
    · rintro - s₁ ⟨h₁, hindex⟩
      exact ⟨h₁, hindex ▸ .refl _ _⟩

/-- Afterwards no victim has a snapshot. -/
theorem dropVictims_spec : ∀ (victims : List ι) (s : ChainRuntime ι φ δ μ κ),
    Accounts hooks cfg [] s →
    (∀ v ∈ victims, ∀ r, s.index.records.get? v = some r → r.residentRows = 1) →
    wp (forEach dropVictim victims)
      (fun _ s' => Accounts hooks cfg [] s' ∧ s'.index = s.index ∧
        (∀ i, s.offload.status i = none → s'.offload.status i = none) ∧
        ∀ v ∈ victims, ∀ r, s.index.records.get? v = some r → s'.offload.status r.seqId = none)
      (fun _ s' => Accounts hooks cfg [] s' ∧ s'.index = s.index) s
  | [], s, h, _ => ⟨h, rfl, fun _ hi => hi, nofun⟩
  | victim :: victims, s, h, hrows => by
    rw [forEach, wp_bind]
    unfold dropVictim
    rw [wp_bind, wp_onIndex]
    refine wp_mono (lookup_spec victim) ?_ ?_
    · rintro r index ⟨rfl, hr⟩
      rw [wp_onOffload]
      refine wp_mono (drop_spec h.offload r.seqId) ?_ fun _ _ hf => hf.elim
      rintro - o ⟨hinv, hsettled⟩
      have hstatus : ∀ i, o.status i = if i = r.seqId then none else s.offload.status i := by
        intro i
        rw [← status_settled, hsettled, status_without,
          status_settled]
      have h₁ : Accounts hooks cfg [] { s with offload := o } := by
        refine h.drop hinv hsettled fun k q hq hseq _ => ?_
        have heq : k = victim := by
          by_contra hne
          exact h.seqId_ne hr hq hne hseq
        exact hrows victim mem_cons_self q (heq ▸ hq)
      refine wp_mono (dropVictims_spec victims _ h₁ fun v hv => hrows v (mem_cons_of_mem _ hv)) ?_ ?_
      · rintro - s₂ ⟨h₂, hindex, hnone, hgone⟩
        refine ⟨h₂, hindex, fun i hi => hnone i ?_, fun v hv q hq => ?_⟩
        · show o.status i = none
          rw [hstatus]
          split
          · rfl
          · exact hi
        · rcases mem_cons.mp hv with rfl | hv
          · rw [hr] at hq
            cases hq
            refine hnone r.seqId ?_
            show o.status r.seqId = none
            rw [hstatus, if_pos rfl]
          · exact hgone v hv q hq
      · rintro e s₂ ⟨h₂, hindex⟩
        exact ⟨h₂, hindex⟩
    · rintro e index ⟨rfl, -⟩
      exact ⟨h, rfl⟩

/-- A chain without a snapshot may leave the index. -/
theorem Accounts.evict (h : Accounts hooks cfg busy s) {index : ChainCacheIndex ι φ δ} {victims : List ι}
    (hinv : ChainCacheIndex.Inv cfg.index index)
    (hevicted : EvictedFrom victims s.index index)
    (hstatus : ∀ v ∈ victims, ∀ r, s.index.records.get? v = some r →
      s.offload.status r.seqId = none) : Accounts hooks cfg busy { s with index := index } := by
  refine ⟨hinv, h.offload, h.bounded, h.disabled, fun i hi => ?_, fun k r hr hk => ?_⟩
  · obtain ⟨k, r, hr, hseq⟩ := h.owned i hi
    have hnot : k ∉ victims := fun hmem => hi (hseq ▸ hstatus k hmem r hr)
    exact ⟨k, r, (hevicted.others k hnot).trans hr, hseq⟩
  · exact h.records k r (hevicted.kept k r hr) hk

theorem Accounts.insert (h : Accounts hooks cfg busy s) {index : ChainCacheIndex ι φ δ}
    (hinv : ChainCacheIndex.Inv cfg.index index)
    (hinserted : Inserted q s.index index) (hactive : q.state = .active)
    (hrows : q.residentRows = 1) : Accounts hooks cfg busy { s with index := index } := by
  have hget : ∀ k, index.records.get? k = if k = q.chainId then some q else s.index.records.get? k := by
    intro k
    rw [hinserted.records, get?_set]
  refine ⟨hinv, h.offload, h.bounded, h.disabled, fun i hi => ?_, fun k r hr hk => ?_⟩
  · obtain ⟨k, r, hr, hseq⟩ := h.owned i hi
    refine ⟨k, r, ?_, hseq⟩
    show index.records.get? k = some r
    rw [hget, if_neg ?_, hr]
    rintro rfl
    rw [hinserted.new] at hr
    cases hr
  · replace hr : index.records.get? k = some r := hr
    rw [hget] at hr
    split at hr
    · cases hr
      refine .inr ⟨hrows, fun hidle => ?_⟩
      rw [hactive] at hidle
      cases hidle
    · exact h.records k r hr hk

/-- Victims and demoted chains are apart, and none is the plan's chain. -/
structure PlannedHere (i : ChainCacheIndex ι φ δ) (plan : ChainAdmissionPlan ι) : Prop where
  planned : Planned i plan
  demoted : ∀ id ∈ plan.demoteChainIds, id ≠ plan.chainId ∧ ∃ r, i.records.get? id = some r
  apart : ∀ id ∈ plan.victimChainIds, id ∉ plan.demoteChainIds

/-- The chain has its row, or a valid snapshot to restore it from. -/
def Resuming (s : ChainRuntime ι φ δ μ κ) (hooks : ChainManager μ κ) (q : ChainRecord ι φ δ) : Prop :=
  q.residentRows = 1 ∨
    (q.residentRows = 0 ∧ s.offload.status q.seqId = some true ∧
      hooks.hasResidency s.manager q.seqId = false)

/-- The plan's chain is ACTIVE at the turn it had, and no victim is left. -/
structure AdmittedChain (plan : ChainAdmissionPlan ι) (q : ChainRecord ι φ δ)
    (i i' : ChainCacheIndex ι φ δ) : Prop where
  record : i'.records.get? plan.chainId = some q
  chainId : q.chainId = plan.chainId
  state : q.state = .active
  origin : (plan.status = .created ∧ i.records.get? plan.chainId = none ∧ q.seqId = plan.seqId ∧
      q.tokenIds = [] ∧ q.residentRows = 1 ∧ q.processedTokenCount = 0) ∨
    (plan.status = .resumed ∧ ∃ r, i.records.get? plan.chainId = some r ∧ r.state = .idle ∧
      q.seqId = r.seqId ∧ q.tokenIds = r.tokenIds ∧ q.residentRows = r.residentRows ∧
      q.processedTokenCount = r.processedTokenCount)
  others : ∀ id r', id ≠ plan.chainId → i'.records.get? id = some r' →
    id ∉ plan.victimChainIds ∧ ∃ r, i.records.get? id = some r ∧ SameTurn r r'
  present : ∀ id ∈ plan.demoteChainIds, ∃ r, i'.records.get? id = some r

/-- No record is new, and none is at another turn. -/
def Thins (i i' : ChainCacheIndex ι φ δ) : Prop :=
  ∀ id r', i'.records.get? id = some r' → ∃ r, i.records.get? id = some r ∧ SameTurn r r'

theorem Demoted.planned {i i' : ChainCacheIndex ι φ δ} (h : Demoted plan.demoteChainIds i i')
    (hplan : PlannedHere i plan) : PlannedHere i' plan := by
  have hself : plan.chainId ∉ plan.demoteChainIds := fun hmem => (hplan.demoted _ hmem).1 rfl
  refine ⟨⟨hplan.planned.nodup, fun v hv => ?_, fun hc => ?_, fun hr => ?_⟩, fun k hk => ?_,
    hplan.apart⟩
  · obtain ⟨hne, r, hr, hrest⟩ := hplan.planned.victims v hv
    exact ⟨hne, r, (h.others v (hplan.apart v hv)).trans hr, hrest⟩
  · obtain ⟨hnew, htomb⟩ := hplan.planned.created hc
    exact ⟨(h.others _ hself).trans hnew, h.tombstones ▸ htomb⟩
  · obtain ⟨r, hget, hrest⟩ := hplan.planned.resumed hr
    exact ⟨r, (h.others _ hself).trans hget, hrest⟩
  · obtain ⟨hne, r, hr⟩ := hplan.demoted k hk
    exact ⟨hne, h.present k r hr⟩

/-- The admission of the index, after the demotions and the drops. -/
theorem applyIndex_spec (h : Accounts hooks cfg [] s) {i₀ : ChainCacheIndex ι φ δ}
    (hplan₀ : PlannedHere i₀ plan) (hdem : Demoted plan.demoteChainIds i₀ s.index)
    (hstatus : ∀ v ∈ plan.victimChainIds, ∀ r, s.index.records.get? v = some r →
      s.offload.status r.seqId = none) :
    wp (onIndex (ChainCacheIndex.applyAdmission cfg.index plan cfg.fingerprint))
      (fun q s' => Accounts hooks cfg [plan.chainId] s' ∧ AdmittedChain plan q i₀ s'.index ∧
        Resuming s' hooks q)
      (fun _ s' => Accounts hooks cfg [] s' ∧ Thins i₀ s'.index ∧
        s'.index.records.get? plan.chainId = i₀.records.get? plan.chainId) s := by
  have hplan := hdem.planned hplan₀
  have hnot : plan.chainId ∉ plan.victimChainIds := fun hmem => (hplan.planned.victims _ hmem).1 rfl
  have hself : plan.chainId ∉ plan.demoteChainIds := fun hmem => (hplan.demoted _ hmem).1 rfl
  rw [wp_onIndex]
  refine wp_mono (ChainCacheIndex.applyAdmission_spec h.index hplan.planned cfg.fingerprint) ?_ ?_
  · rintro q index ⟨hinv, i₁, hinv₁, happlied⟩
    have h₁ := h.evict hinv₁ happlied.evicted hstatus
    have hothers : ∀ id r', id ≠ plan.chainId → index.records.get? id = i₁.records.get? id →
        index.records.get? id = some r' →
        id ∉ plan.victimChainIds ∧ ∃ r, i₀.records.get? id = some r ∧ SameTurn r r' := by
      intro id r' _ hsame hr'
      rw [hsame] at hr'
      refine ⟨fun hmem => ?_, hdem.records id r' (happlied.evicted.kept id r' hr')⟩
      rw [happlied.gone id hmem] at hr'
      cases hr'
    have hpresent : ∀ id ∈ plan.demoteChainIds, index.records.get? id = i₁.records.get? id →
        ∃ r, index.records.get? id = some r := by
      intro id hid hsame
      obtain ⟨-, r, hr⟩ := hplan.demoted id hid
      refine ⟨r, ?_⟩
      rw [hsame, happlied.evicted.others id fun hmem => hplan.apart id hmem hid, hr]
    rcases happlied.outcome with ⟨hstatus', hinserted, hseq, htokens, hrows, hcount⟩ |
        ⟨hstatus', r, hrewritten, hidle, htokens, hrows, hcount⟩
    · have hget : ∀ id, id ≠ plan.chainId → index.records.get? id = i₁.records.get? id := by
        intro id hid
        rw [hinserted.records, get?_set_ne _ _ fun heq => hid (heq.trans happlied.admitted.chainId)]
      have hnew := (hplan₀.planned.created hstatus').1
      refine ⟨(h₁.insert hinv hinserted happlied.admitted.state hrows).weaken nofun,
        ⟨?_, happlied.admitted.chainId, happlied.admitted.state,
          .inl ⟨hstatus', hnew, hseq, htokens, hrows, hcount⟩,
          fun id r' hid => hothers id r' hid (hget id hid),
          fun id hid => hpresent id hid (hget id (hplan.demoted id hid).1)⟩, .inl hrows⟩
      show index.records.get? plan.chainId = some q
      rw [hinserted.records, ← happlied.admitted.chainId, get?_set_self]
    · have hget : ∀ id, id ≠ plan.chainId → index.records.get? id = i₁.records.get? id := by
        intro id hid
        rw [hrewritten.records, get?_set_ne _ _ hid]
      have hr : s.index.records.get? plan.chainId = some r :=
        (happlied.evicted.others _ hnot) ▸ hrewritten.before
      have hr₀ : i₀.records.get? plan.chainId = some r := (hdem.others _ hself) ▸ hr
      refine ⟨(h₁.start plan.chainId).rewrite hinv hrewritten fun hmem =>
          absurd mem_cons_self hmem,
        ⟨?_, happlied.admitted.chainId, happlied.admitted.state,
          .inr ⟨hstatus', r, hr₀, hidle, hrewritten.seqId, htokens, hrows, hcount⟩,
          fun id r' hid => hothers id r' hid (hget id hid),
          fun id hid => hpresent id hid (hget id (hplan.demoted id hid).1)⟩, ?_⟩
      · show index.records.get? plan.chainId = some q
        rw [hrewritten.records, get?_set_self]
      · have hseq := hrewritten.seqId
        rcases h.records _ r hr nofun with ⟨hzero, -, hst, hres⟩ | ⟨hone, -⟩
        · refine .inr ⟨hrows.trans hzero, ?_, ?_⟩
          · show s.offload.status q.seqId = some true
            rw [hseq, hst]
          · show hooks.hasResidency s.manager q.seqId = false
            rw [hseq, hres]
        · exact .inl (hrows.trans hone)
  · rintro e index ⟨hinv, hevicted⟩
    refine ⟨h.evict hinv hevicted hstatus, fun id r' hr' => ?_, ?_⟩
    · exact hdem.records id r' (hevicted.kept id r' hr')
    · show index.records.get? plan.chainId = _
      rw [hevicted.others _ hnot, hdem.others _ hself]

/-- A resumed chain is still to be restored: its id stays busy. -/
theorem applyAdmission_spec (hl : hooks.Lawful) (h : Accounts hooks cfg [] s)
    (hplan : PlannedHere s.index plan) :
    wp (applyAdmission hooks cfg plan)
      (fun q s' => Accounts hooks cfg [plan.chainId] s' ∧ AdmittedChain plan q s.index s'.index ∧
        Resuming s' hooks q)
      (fun _ s' => Accounts hooks cfg [] s' ∧ Thins s.index s'.index ∧
        s'.index.records.get? plan.chainId = s.index.records.get? plan.chainId) s := by
  have hself : plan.chainId ∉ plan.demoteChainIds := fun hmem => (hplan.demoted _ hmem).1 rfl
  unfold applyAdmission
  rw [wp_bind, wp_whenOffload]
  refine ⟨fun hcap => ?_, fun _ => ?_⟩
  · exact applyIndex_spec h hplan (.refl _ _) fun _ _ r _ => h.disabled hcap r.seqId
  · rw [wp_bind]
    refine wp_mono (demoteVictims_spec hl plan.demoteChainIds s h) ?_ ?_
    · rintro - s₁ ⟨h₁, hdem⟩
      have hrows : ∀ v ∈ plan.victimChainIds, ∀ r, s₁.index.records.get? v = some r →
          r.residentRows = 1 := by
        intro v hv r hr
        obtain ⟨-, r₀, hr₀, -, hpos⟩ := (hdem.planned hplan).planned.victims v hv
        rw [hr] at hr₀
        cases hr₀
        rcases h₁.records v r hr nofun with ⟨hzero, -⟩ | ⟨hone, -⟩
        · omega
        · exact hone
      refine wp_mono (dropVictims_spec plan.victimChainIds s₁ h₁ hrows) ?_ ?_
      · rintro - s₂ ⟨h₂, hindex, -, hgone⟩
        exact applyIndex_spec h₂ hplan (hindex ▸ hdem) (hindex ▸ hgone)
      · rintro e s₂ ⟨h₂, hindex⟩
        rw [hindex]
        exact ⟨h₂, hdem.records, hdem.others _ hself⟩
    · rintro e s₁ ⟨h₁, hdem⟩
      exact ⟨h₁, hdem.records, hdem.others _ hself⟩

/-- A restore that raises leaves the chain off the device, with its copy. -/
theorem prepareResumedChain_spec (hl : hooks.Lawful) (h : Accounts hooks cfg [id] s)
    (hq : s.index.records.get? id = some q) (hactive : q.state = .active)
    (hresuming : Resuming s hooks q) :
    wp (prepareResumedChain hooks cfg q)
      (fun _ s' => Accounts hooks cfg [] s' ∧ ∃ q', s'.index.records.get? id = some q' ∧
        SameTurn q q' ∧ ∀ k, k ≠ id → s'.index.records.get? k = s.index.records.get? k)
      (fun _ s' => Accounts hooks cfg [id] s' ∧ s'.index = s.index ∧ q.residentRows = 0 ∧
        s'.offload.status q.seqId = some true ∧ hooks.hasResidency s'.manager q.seqId = false) s := by
  have hrelease : ∀ {s₁ : ChainRuntime ι φ δ μ κ} {q₁ : ChainRecord ι φ δ},
      Accounts hooks cfg [id] s₁ → s₁.index.records.get? id = some q₁ → q₁.state = .active →
      q₁.residentRows = 1 → Accounts hooks cfg [] s₁ := by
    intro s₁ q₁ h₁ hq₁ hactive₁ hrows
    refine h₁.release fun r hr => .inr ?_
    rw [hq₁] at hr
    cases hr
    refine ⟨hrows, fun hidle => ?_⟩
    rw [hactive₁] at hidle
    cases hidle
  have hinvalidate : ∀ {s₁ : ChainRuntime ι φ δ μ κ} {q₁ : ChainRecord ι φ δ},
      Accounts hooks cfg [id] s₁ → s₁.index.records.get? id = some q₁ → q₁.state = .active →
      q₁.residentRows = 1 →
      wp (onOffload (ChainOffload.invalidate q₁.seqId))
        (fun _ s' => Accounts hooks cfg [] s' ∧ s'.index = s₁.index) (fun _ _ => False) s₁ := by
    intro s₁ q₁ h₁ hq₁ hactive₁ hrows
    rw [wp_onOffload]
    refine wp_mono (ChainOffload.invalidate_spec h₁.offload q₁.seqId) ?_ fun _ _ hf => hf
    rintro - o ⟨hinv, hsettled⟩
    exact ⟨hrelease (h₁.spoil hq₁ hinv hsettled) hq₁ hactive₁ hrows, rfl⟩
  unfold prepareResumedChain
  rw [wp_whenOffload]
  refine ⟨fun hcap => ?_, fun _ => ?_⟩
  · rcases hresuming with hrows | ⟨-, hstatus, -⟩
    · exact ⟨hrelease h hq hactive hrows, q, hq, .refl q, fun _ _ => rfl⟩
    · rw [h.disabled hcap] at hstatus
      cases hstatus
  · rw [wp_ite]
    split
    · next hzero =>
      obtain ⟨hstatus, hres⟩ : s.offload.status q.seqId = some true ∧
          hooks.hasResidency s.manager q.seqId = false := by
        rcases hresuming with hone | ⟨-, hrest⟩
        · rw [hzero] at hone
          cases hone
        · exact hrest
      rw [wp_bind]
      refine wp_mono (restore_spec hl h hq) ?_ ?_
      · rintro - s₁ ⟨h₁, hindex⟩
        have hq₁ : s₁.index.records.get? id = some q := hindex ▸ hq
        have hid := h₁.index.keys id q hq₁
        rw [wp_bind, writeRecord, wp_onIndex, wp_modify]
        generalize hq₂ : ({ q with
            residentRows := 1
            reservedSlotsByLayer :=
              zipWith (· - ·) q.reservedSlotsByLayer q.physicalSlotsByLayer
            reservedRows := 0 } : ChainRecord ι φ δ) = q₂
        have hsame : SameTurn q q₂ := by
          subst hq₂
          exact ⟨rfl, rfl, rfl, rfl⟩
        have hrows : q₂.residentRows = 1 := by
          subst hq₂
          rfl
        have hid₂ : q₂.chainId = id := by
          subst hq₂
          exact hid
        have hrecords : (setRecord q₂ s₁.index).records = s₁.index.records.set id q₂ := by
          rw [← hid₂]
          rfl
        have h₂ : Accounts hooks cfg [id]
            { s₁ with index := setRecord q₂ s₁.index } := by
          refine h₁.rewrite (r := q) (q := q₂)
            (h₁.index.setRecord hq₁ hid₂ hsame.seqId hsame.tokenIds hsame.state)
            ⟨hq₁, hid₂, hsame.seqId, hrecords, rfl, rfl⟩ fun hmem => ?_
          exact absurd mem_cons_self hmem
        have hget₂ : (setRecord q₂ s₁.index).records.get? id = some q₂ := by
          rw [hrecords, get?_set_self]
        rw [← hsame.seqId]
        refine wp_mono (hinvalidate h₂ hget₂ (hsame.state.trans hactive) hrows) ?_ fun _ _ hf => hf.elim
        rintro - s₂ ⟨h₃, hindex₂⟩
        refine ⟨h₃, q₂, ?_, hsame, fun k hk => ?_⟩
        · rw [hindex₂]
          exact hget₂
        · rw [hindex₂]
          show (setRecord q₂ s₁.index).records.get? k = _
          rw [hrecords, get?_set_ne _ _ hk, hindex]
      · rintro e s₁ ⟨h₁, hindex, hsettled, hkeep⟩
        refine ⟨h₁, hindex, hzero, ?_, hkeep hres⟩
        rw [← status_settled, hsettled, status_settled, hstatus]
    · next hne =>
      have hrows : q.residentRows = 1 := hresuming.resolve_right fun hz => hne hz.1
      refine wp_mono (hinvalidate h hq hactive hrows) ?_ fun _ _ hf => hf.elim
      rintro - s₁ ⟨h₁, hindex⟩
      exact ⟨h₁, q, hindex ▸ hq, .refl q, fun k _ => by rw [hindex]⟩

theorem lookups_spec : ∀ (ids : List ι) (s : ChainRuntime ι φ δ μ κ),
    (∀ id ∈ ids, ∃ r, s.index.records.get? id = some r) →
    wp (forEach (fun id => do
        let _ ← onIndex (lookup id)) ids : RuntimeM ι φ δ μ κ Unit)
      (fun _ s' => s' = s) (fun _ _ => False) s
  | [], _, _ => rfl
  | id :: ids, s, hfound => by
    rw [forEach, wp_bind, wp_bind, wp_onIndex]
    refine wp_mono (lookup_spec id) ?_ ?_
    · rintro r index ⟨rfl, -⟩
      exact lookups_spec ids s fun k hk => hfound k (mem_cons_of_mem _ hk)
    · rintro e index ⟨-, hnone⟩
      obtain ⟨r, hr⟩ := hfound id mem_cons_self
      rw [hnone] at hr
      cases hr

theorem freeVictims_spec (hl : hooks.Lawful) : ∀ (seqIds : List Nat) (m : μ),
    wp (forEach (fun seqId => PyM.modify (hooks.freeSeqPayload seqId)) seqIds : PyM μ Unit)
      (fun _ m' => ∀ i, hooks.hasResidency m' i = true → hooks.hasResidency m i = true)
      (fun _ _ => False) m
  | [], _ => fun _ hi => hi
  | seqId :: seqIds, m => by
    rw [forEach, wp_bind, wp_modify]
    refine wp_mono (freeVictims_spec hl seqIds _) ?_ fun _ _ hf => hf
    intro _ m' hm' i hi
    exact (hl.freeSeqPayload seqId m i (hm' i hi)).2

/-- A record without a row still has none. -/
def StillHosted (i i' : ChainCacheIndex ι φ δ) (id : ι) : Prop :=
  ∀ r, i.records.get? id = some r → r.residentRows = 0 →
    ∃ r', i'.records.get? id = some r' ∧ r'.residentRows = 0

/-- The whole admission, with the restore of a resumed chain. -/
theorem chainApplyAdmission_spec (hl : hooks.Lawful) (h : Accounts hooks cfg [] s)
    (hplan : PlannedHere s.index plan) :
    wp (chainApplyAdmission hooks cfg plan)
      (fun _ s' => Accounts hooks cfg [] s' ∧ ∃ q q' i₁, AdmittedChain plan q s.index i₁ ∧
        s'.index.records.get? plan.chainId = some q' ∧ SameTurn q q' ∧
        ∀ k, k ≠ plan.chainId → s'.index.records.get? k = i₁.records.get? k)
      (fun _ s' => Accounts hooks cfg [] s' ∧ Thins s.index s'.index ∧
        StillHosted s.index s'.index plan.chainId) s := by
  unfold chainApplyAdmission
  rw [wp_bind]
  unfold victimSeqIds
  rw [wp_bind, wp_get, wp_lift]
  split
  swap
  · exact ⟨h, fun _ r hr => ⟨r, hr, .refl r⟩, fun r hr hz => ⟨r, hr, hz⟩⟩
  next victims _ =>
  rw [wp_bind]
  refine wp_mono (applyAdmission_spec hl h hplan) ?_ ?_
  · rintro q s₁ ⟨h₁, hadm, hresuming⟩
    rw [wp_bind]
    refine wp_mono (lookups_spec plan.demoteChainIds s₁ hadm.present) ?_ fun _ _ hf => hf.elim
    rintro - s₂ rfl
    rw [wp_bind, wp_onManager]
    refine wp_mono (freeVictims_spec hl victims s₂.manager) ?_ fun _ _ hf => hf.elim
    intro _ m hm
    have h₂ : Accounts hooks cfg [plan.chainId] { s₂ with manager := m } :=
      h₁.manage fun _ r _ _ _ hres => hm r.seqId hres
    have hresuming₂ : Resuming { s₂ with manager := m } hooks q := by
      rcases hresuming with hrows | ⟨hrows, hstatus, hres⟩
      · exact .inl hrows
      · refine .inr ⟨hrows, hstatus, ?_⟩
        by_contra hyes
        rw [Bool.not_eq_false] at hyes
        rw [hm _ hyes] at hres
        cases hres
    rw [wp_bind, wp_tryExcept]
    refine wp_mono (prepareResumedChain_spec hl h₂ hadm.record hadm.state hresuming₂) ?_ ?_
    · rintro - s₃ ⟨h₃, q', hq', hsame, hothers⟩
      exact ⟨h₃, q, q', s₂.index, hadm, hq', hsame, hothers⟩
    · rintro e s₃ ⟨h₃, hindex, hzero, hstatus, hres⟩
      replace hindex : s₃.index = s₂.index := hindex
      obtain ⟨hres', r₀, hr₀, hidle₀, hseq₀, htokens₀, hrows₀, hcount₀⟩ :=
        hadm.origin.resolve_left fun hc => by
          rw [hc.2.2.2.2.1] at hzero
          cases hzero
      have hq₃ : s₃.index.records.get? plan.chainId = some q := hindex ▸ hadm.record
      have hid := hadm.chainId
      rw [wp_bind]
      unfold abandonResumption
      rw [wp_bind, wp_get, hid, hq₃, hres', wp_onIndex]
      generalize hq₄ : ({ q with reservedSlotsByLayer := [], reservedRows := 0 } :
        ChainRecord ι φ δ) = q₄
      have hkeys : q₄.chainId = plan.chainId ∧ q₄.seqId = q.seqId ∧ q₄.tokenIds = q.tokenIds ∧
          q₄.residentRows = q.residentRows ∧ q₄.processedTokenCount = q.processedTokenCount := by
        subst hq₄
        exact ⟨hid, rfl, rfl, rfl, rfl⟩
      obtain ⟨hid₄, hseq₄, htokens₄, hrows₄, hcount₄⟩ := hkeys
      have hinv₄ := h₃.index.setRecordState hq₃ hid₄ hseq₄ htokens₄ .idle
      have hrecords : (setRecordState q₄ .idle s₃.index).2.records =
          s₃.index.records.set plan.chainId { q₄ with state := .idle } := by
        rw [← hid₄]
        rfl
      have hrewritten : Rewritten plan.chainId q { q₄ with state := .idle } s₃.index
          (setRecordState q₄ .idle s₃.index).2 :=
        ⟨hq₃, hid₄, hseq₄, hrecords, rfl, rfl⟩
      have hrun : setRecordState q₄ .idle s₃.index =
          (.ok (), (setRecordState q₄ .idle s₃.index).2) := rfl
      rw [wp_of_ok hrun, wp_raise]
      have hacc : Accounts hooks cfg [plan.chainId]
          { s₃ with index := (setRecordState q₄ .idle s₃.index).2 } :=
        h₃.rewrite hinv₄ hrewritten fun hmem => absurd mem_cons_self hmem
      refine ⟨hacc.release fun r hr => ?_, fun k r' hr' => ?_, fun r _ _ => ?_⟩
      · replace hr : (setRecordState q₄ .idle s₃.index).2.records.get? plan.chainId =
            some r := hr
        rw [hrecords, get?_set_self] at hr
        cases hr
        refine .inl ⟨hrows₄.trans hzero, rfl, ?_, ?_⟩
        · show s₃.offload.status q₄.seqId = some true
          rw [hseq₄, hstatus]
        · show hooks.hasResidency s₃.manager q₄.seqId = false
          rw [hseq₄, hres]
      · replace hr' : (setRecordState q₄ .idle s₃.index).2.records.get? k = some r' := hr'
        rw [hrecords, get?_set] at hr'
        split at hr'
        · next heq =>
          cases hr'
          exact ⟨r₀, heq ▸ hr₀, htokens₄.trans htokens₀, hidle₀.symm, hseq₄.trans hseq₀,
            hcount₄.trans hcount₀⟩
        · next hne =>
          rw [hindex] at hr'
          exact (hadm.others k r' hne hr').2
      · refine ⟨{ q₄ with state := .idle }, ?_, hrows₄.trans hzero⟩
        show (setRecordState q₄ .idle s₃.index).2.records.get? plan.chainId = _
        rw [hrecords, get?_set_self]
  · rintro e s₁ ⟨h₁, hthins, hsame⟩
    exact ⟨h₁, hthins, fun r hr hz => ⟨r, hsame.trans hr, hz⟩⟩

end

section

/-- The index and the manager are as before: only copies in flight may have completed. -/
def OnlyPolled (hooks : ChainManager μ κ) (cfg : ChainRuntimeConfig φ δ)
    (s s' : ChainRuntime ι φ δ μ κ) : Prop :=
  Accounts hooks cfg [] s' ∧ s'.index = s.index ∧ s'.manager = s.manager

theorem admissionRequirements_spec (h : Accounts hooks cfg [] s) (chainId : ι) (tokenCount : Nat)
    (decode : List Int) (polled : Nat) :
    wp (admissionRequirements hooks cfg chainId tokenCount decode polled)
      (fun _ => OnlyPolled hooks cfg s) (fun _ => OnlyPolled hooks cfg s) s := by
  unfold admissionRequirements
  rw [wp_bind, wp_whenOffload]
  refine ⟨fun _ => ?_, fun _ => ?_⟩
  · rw [wp_bind, wp_get, wp_bind, wp_lift]
    split
    · exact ⟨h, rfl, rfl⟩
    · exact ⟨h, rfl, rfl⟩
  · rw [wp_onOffload, wp_modify, wp_bind, wp_get, wp_bind, wp_lift]
    obtain ⟨hinv, hsettled⟩ := h.offload.poll polled
    have h₁ := h.settle hinv hsettled
    split
    · exact ⟨h₁, rfl, rfl⟩
    · exact ⟨h₁, rfl, rfl⟩

theorem offloadPlan_spec {plan : ChainAdmissionPlan ι}
    (hplan : Planned s.index plan) (hnone : plan.demoteChainIds = []) :
    wp (offloadPlan cfg plan)
      (fun plan' s' => s' = s ∧ plan'.chainId = plan.chainId ∧ plan'.seqId = plan.seqId ∧
        PlannedHere s.index plan')
      (fun _ s' => s' = s) s := by
  unfold offloadPlan
  split
  · refine ⟨rfl, rfl, rfl, hplan, ?_, ?_⟩
    · rw [hnone]
      nofun
    · rw [hnone]
      nofun
  · rw [wp_bind, wp_get, wp_bind, wp_raiseIf]
    refine ⟨fun _ => rfl, fun _ => ⟨rfl, rfl, rfl, ?_, fun id hid => ?_, fun id hid hid' => ?_⟩⟩
    · exact hplan.sublist filter_sublist
    · obtain ⟨hne, r, hr, -⟩ := hplan.victims id (mem_of_mem_filter hid)
      exact ⟨hne, r, hr⟩
    · have hno := (mem_filter.mp hid).2
      rw [(mem_filter.mp hid').2] at hno
      cases hno

variable [DecidableEq φ] [DecidableEq δ]

/-- Planning changes nothing but what the poll completes. -/
theorem planWith_spec (h : Accounts hooks cfg [] s) (chainId : ι) (seqId : Nat)
    (input : PrefixInput δ) (decode : List Int) (polled : Nat) :
    wp (planWith hooks cfg chainId seqId input decode polled)
      (fun plan s' => OnlyPolled hooks cfg s s' ∧ plan.chainId = chainId ∧ plan.seqId = seqId ∧
        PlannedHere s'.index plan)
      (fun _ => OnlyPolled hooks cfg s) s := by
  unfold planWith
  rw [wp_bind]
  refine wp_mono (admissionRequirements_spec h chainId input.inputTokenCount decode polled) ?_
    fun _ _ he => he
  rintro answer s₁ ⟨h₁, hsame⟩
  rw [wp_bind, wp_onIndex]
  refine wp_mono (ChainCacheIndex.planAdmission_spec h₁.index _) ?_ ?_
  · rintro plan index ⟨rfl, hplanned, hid, hseq, hdemote⟩
    rw [wp_bind]
    refine wp_mono (offloadPlan_spec hplanned hdemote) ?_ ?_
    · rintro plan' s₂ ⟨rfl, hid', hseq', hplan⟩
      exact ⟨⟨h₁, hsame⟩, hid'.trans hid, hseq'.trans hseq,
        ⟨hplan.planned.nodup, hplan.planned.victims, hplan.planned.created, hplan.planned.resumed⟩,
        hplan.demoted, hplan.apart⟩
    · rintro e s₂ rfl
      exact ⟨h₁, hsame⟩
  · rintro e index rfl
    exact ⟨h₁, hsame⟩

theorem planAdmission_spec (h : Accounts hooks cfg [] s) (chainId : ι) (seqId : Nat)
    (tokenIds : List Int) (polled : Nat) :
    wp (planAdmission hooks cfg chainId seqId tokenIds polled)
      (fun plan s' => OnlyPolled hooks cfg s s' ∧ plan.chainId = chainId ∧ plan.seqId = seqId ∧
        PlannedHere s'.index plan)
      (fun _ => OnlyPolled hooks cfg s) s := by
  unfold planAdmission
  rw [wp_bind, wp_get]
  exact planWith_spec h chainId seqId _ _ polled

/-- A follower goes on only with the plan it would make itself. -/
theorem validateAdmissionPlan_spec (h : Accounts hooks cfg [] s) (expected : ChainAdmissionPlan ι)
    (count : Nat) (digest : δ) (polled : Nat) :
    wp (validateAdmissionPlan hooks cfg expected count digest polled)
      (fun plan s' => OnlyPolled hooks cfg s s' ∧ plan = expected ∧ PlannedHere s'.index plan)
      (fun _ => OnlyPolled hooks cfg s) s := by
  unfold validateAdmissionPlan planAdmissionDigest
  rw [wp_bind]
  refine wp_mono (planWith_spec h _ _ _ _ polled) ?_ fun _ _ he => he
  rintro plan s₁ ⟨hpolled, -, -, hplan⟩
  rw [wp_bind, wp_raiseIf]
  exact ⟨fun _ => hpolled, fun heq => ⟨hpolled, not_not.mp heq, hplan⟩⟩

end

section

theorem chainInvalidate_spec (hl : hooks.Lawful) (h : Accounts hooks cfg [] s) (chainId : ι)
    (expectedSeqId : Option Nat) :
    wp (chainInvalidate hooks cfg chainId expectedSeqId)
      (fun _ s' => Accounts hooks cfg [] s' ∧
        ∃ r, Removed chainId r s.index s'.index)
      (fun _ s' => s' = s ∧ ∀ r, s.index.records.get? chainId = some r →
        ∃ seqId ∈ expectedSeqId, r.seqId ≠ seqId) s := by
  unfold chainInvalidate
  rw [wp_bind, wp_onIndex]
  refine wp_mono (lookup_spec chainId) ?_ ?_
  · rintro r index ⟨rfl, hr⟩
    rw [wp_bind, wp_raiseIf]
    refine ⟨fun hother => ⟨rfl, fun q hq => ?_⟩, fun _ => ?_⟩
    · rw [hr] at hq
      cases hq
      exact hother
    rw [wp_bind]
    refine wp_mono (invalidate_spec h nofun) ?_ ?_
    · rintro r' s₁ ⟨h₁, hremoved, -⟩
      rw [wp_onManager, wp_modify]
      exact ⟨h₁.freePayload hl r'.seqId, r', hremoved⟩
    · rintro - s₁ ⟨rfl, hnone⟩
      rw [hr] at hnone
      cases hnone
  · rintro - index ⟨rfl, hnone⟩
    refine ⟨rfl, fun q hq => ?_⟩
    rw [hnone] at hq
    cases hq

/-- Demoted or dropped: no record is new or at another turn. -/
theorem chainReclaimIdle_spec (hl : hooks.Lawful) (h : Accounts hooks cfg [] s) (chainId : ι)
    (expectedSeqId : Nat) (demote : Bool) :
    wp (chainReclaimIdle hooks cfg chainId expectedSeqId demote)
      (fun _ s' => Accounts hooks cfg [] s' ∧ Thins s.index s'.index)
      (fun _ s' => Accounts hooks cfg [] s' ∧ Thins s.index s'.index) s := by
  have hsame : Thins s.index s.index := fun _ r hr => ⟨r, hr, .refl r⟩
  unfold chainReclaimIdle
  rw [wp_bind, wp_onIndex]
  refine wp_mono (lookup_spec chainId) ?_ ?_
  · rintro r index ⟨rfl, hr⟩
    rw [wp_bind, wp_raiseIf]
    refine ⟨fun _ => ⟨h, hsame⟩, fun _ => ?_⟩
    rw [wp_bind, wp_raiseIf]
    refine ⟨fun _ => ⟨h, hsame⟩, fun hidle => ?_⟩
    rw [wp_bind, wp_get, wp_bind, wp_raiseIf]
    refine ⟨fun _ => ⟨h, hsame⟩, fun hresident => ?_⟩
    rw [not_or] at hresident
    have hrows : r.residentRows = 1 := by
      rcases h.records chainId r hr (by simp) with ⟨hzero, -⟩ | ⟨hone, -⟩
      · omega
      · exact hone
    have hid := h.index.keys chainId r hr
    rw [wp_ite]
    split
    · rw [wp_bind, wp_raiseIf]
      refine ⟨fun _ => ⟨h, hsame⟩, fun _ => ?_⟩
      rw [wp_bind, wp_onOffload]
      refine wp_mono (wait_spec h.offload r.seqId) ?_ ?_
      · rintro snapshot o ⟨hinv, hsettled, hs, hc, -⟩
        have h₁ := h.settle hinv hsettled
        rw [wp_bind, wp_raiseIf]
        refine ⟨fun _ => ⟨h₁, hsame⟩, fun hvalid => ?_⟩
        rw [wp_bind, wp_onManager, wp_modify, writeRecord, wp_onIndex, wp_modify]
        have hdemoted := (h₁.freePayload hl r.seqId).demote hr (not_not.mp hidle) ?_ ?_
        · exact ⟨hdemoted.1, hdemoted.2.records⟩
        · show o.status r.seqId = some true
          unfold status
          rw [hs, Option.map_some, Bool.eq_true_of_not_eq_false hvalid, Bool.or_true]
        · by_contra hyes
          rw [Bool.not_eq_false] at hyes
          exact (hl.freeSeqPayload r.seqId s.manager r.seqId hyes).1 rfl
      · rintro e o ⟨-, rfl, -⟩
        exact ⟨h, hsame⟩
    · have hend : ∀ o, Accounts hooks cfg [chainId] { s with offload := o } →
          Accounts hooks cfg [] { s with offload := o } → o.status r.seqId = none →
          wp (do
              onManager (PyM.modify (hooks.freeSeqPayload r.seqId))
              let _ ← onIndex (evict cfg.index chainId) :
              RuntimeM ι φ δ μ κ Unit)
            (fun _ s' => Accounts hooks cfg [] s' ∧ Thins s.index s'.index)
            (fun _ s' => Accounts hooks cfg [] s' ∧ Thins s.index s'.index) { s with offload := o } := by
        intro o hbusy hfree hstatus
        rw [wp_bind, wp_onManager, wp_modify, wp_bind, wp_onIndex]
        refine wp_mono (evict_spec h.index chainId) ?_ ?_
        · rintro r' index ⟨hinv, hremoved, -⟩
          have heq := hremoved.before
          rw [hr] at heq
          cases heq
          refine ⟨(hbusy.freePayload hl r.seqId).remove hinv hremoved hstatus, fun k q hq => ?_⟩
          replace hq : index.records.get? k = some q := hq
          rw [hremoved.records, get?_erase] at hq
          split at hq
          · cases hq
          · exact ⟨q, hq, .refl q⟩
        · rintro e index ⟨rfl, -⟩
          exact ⟨hfree.freePayload hl r.seqId, hsame⟩
      rw [wp_bind, wp_whenOffload]
      refine ⟨fun hcap => ?_, fun _ => ?_⟩
      · exact hend s.offload (h.weaken (by simp)) h (h.disabled hcap r.seqId)
      · rw [wp_onOffload]
        refine wp_mono (drop_spec h.offload r.seqId) ?_ fun _ _ hf => hf.elim
        rintro - o ⟨hinv, hsettled⟩
        have hdrop : Accounts hooks cfg [] { s with offload := o } := by
          refine h.drop hinv hsettled fun k q hq hseq _ => ?_
          have heq : k = chainId := by
            by_contra hne
            exact h.seqId_ne hr hq hne hseq
          rw [heq, hr] at hq
          cases hq
          exact hrows
        refine hend o (hdrop.weaken (by simp)) hdrop ?_
        rw [← status_settled, hsettled, status_without, if_pos rfl]
  · rintro e index ⟨rfl, -⟩
    exact ⟨h, hsame⟩

theorem reset_spec (h : Accounts hooks cfg [] s) :
    wp (reset cfg : RuntimeM ι φ δ μ κ Unit) (fun _ s' => Accounts hooks cfg [] s' ∧ s'.index = {}) (fun _ _ => False) s := by
  have hempty : ∀ o : ChainOffload κ, o.Inv → (∀ i, o.status i = none) →
      Accounts hooks cfg [] ({ s with offload := o, index := {} } : ChainRuntime ι φ δ μ κ) := by
    intro o hinv hnone
    refine ⟨inv_empty, hinv, fun n _ => ?_, fun _ => hnone, fun i hi => ?_, nofun⟩
    · have hused := hinv.used_of_single 0 fun i _ =>
        status_eq_none.mp (hnone i)
      have hzero : o.snapshotBytes 0 = 0 := by
        unfold snapshotBytes
        rw [status_eq_none.mp (hnone 0)]
        rfl
      rw [hzero] at hused
      show o.usedBytes ≤ n
      omega
    · exact absurd (hnone i) hi
  unfold reset
  rw [wp_bind, wp_whenOffload]
  refine ⟨fun hcap => ⟨hempty s.offload h.offload (h.disabled hcap), rfl⟩, fun _ => ?_⟩
  rw [wp_onOffload]
  refine wp_mono (ChainOffload.reset_spec h.offload) ?_ fun _ _ hf => hf
  rintro - o ⟨hinv, hnone⟩
  exact ⟨hempty o hinv hnone, rfl⟩

end

section

theorem Accounts.of_records (h : Accounts hooks cfg [] s) {index : ChainCacheIndex ι φ δ}
    (hinv : ChainCacheIndex.Inv cfg.index index) (hrecords : index.records = s.index.records) :
    Accounts hooks cfg [] { s with index := index } := by
  refine ⟨hinv, h.offload, h.bounded, h.disabled, fun i hi => ?_, fun id r hr => ?_⟩
  · show ∃ id r, index.records.get? id = some r ∧ _
    rw [hrecords]
    exact h.owned i hi
  · replace hr : index.records.get? id = some r := hr
    rw [hrecords] at hr
    exact h.records id r hr

variable [DecidableEq φ] [DecidableEq δ]

/-- The calls of one rank; in `step` the cache manager computes. -/
inductive RuntimeOp (ι δ μ : Type)
  | admission (chainId : ι) (seqId : Nat) (tokenIds : List Int) (polled : Nat)
  | follow (expected : ChainAdmissionPlan ι) (inputTokenCount : Nat) (inputPrefixDigest : δ)
      (polled : Nat)
  | finish (chainId : ι) (seqId : Nat) (digest : δ) (processedTokenCount : Nat) (polled : Nat)
  | remember (prepared : PreparedChainTokens ι δ)
  | reclaimIdle (chainId : ι) (seqId : Nat) (demote : Bool)
  | invalidate (chainId : ι) (expectedSeqId : Option Nat)
  | poll (polled : Nat)
  | routingSnapshot
  | step (f : μ → μ)
  | completePrompt (chainId : ι)
  | reset

def RuntimeOp.run (hooks : ChainManager μ κ) (cfg : ChainRuntimeConfig φ δ) :
    RuntimeOp ι δ μ → RuntimeM ι φ δ μ κ Unit
  | .admission chainId seqId tokenIds polled => do
    let plan ← planAdmission hooks cfg chainId seqId tokenIds polled
    let _ ← chainApplyAdmission hooks cfg plan
  | .follow expected count digest polled => do
    let plan ← validateAdmissionPlan hooks cfg expected count digest polled
    let _ ← chainApplyAdmission hooks cfg plan
  | .finish chainId seqId digest processed polled => do
    let _ ← chainFinish hooks cfg chainId seqId digest processed polled
  | .remember prepared => do
    let _ ← onIndex (rememberPreparedTokens cfg.index prepared)
  | .reclaimIdle chainId seqId demote => chainReclaimIdle hooks cfg chainId seqId demote
  | .invalidate chainId expectedSeqId => chainInvalidate hooks cfg chainId expectedSeqId
  | .poll polled => whenOffload cfg (onOffload (PyM.modify (ChainOffload.poll polled)))
  | .routingSnapshot => do
    let _ ← onIndex ChainCacheIndex.routingSnapshot
  | .step f => onManager (PyM.modify f)
  | .completePrompt chainId => ChainRuntime.completePrompt chainId
  | .reset => ChainRuntime.reset cfg

/-- A step of the manager gives no idle chain a row. -/
def RuntimeOp.Permitted (hooks : ChainManager μ κ) (s : ChainRuntime ι φ δ μ κ) :
    RuntimeOp ι δ μ → Prop
  | .step f => ∀ id r, s.index.records.get? id = some r → r.state = .idle →
      hooks.hasResidency (f s.manager) r.seqId = true → hooks.hasResidency s.manager r.seqId = true
  | _ => True

/-- The states that the calls of one rank reach, also those that raise. -/
inductive Reachable (hooks : ChainManager μ κ) (cfg : ChainRuntimeConfig φ δ) :
    ChainRuntime ι φ δ μ κ → Prop
  | start (m : μ) : Reachable hooks cfg { manager := m }
  | step {s : ChainRuntime ι φ δ μ κ} (op : RuntimeOp ι δ μ) :
      Reachable hooks cfg s → op.Permitted hooks s → Reachable hooks cfg (op.run hooks cfg s).2

omit [DecidableEq φ] [DecidableEq δ] in
theorem completePrompt_spec (h : Accounts hooks cfg [] s) (chainId : ι) :
    wp (completePrompt chainId)
      (fun _ s' => Accounts hooks cfg [] s' ∧ Thins s.index s'.index) (fun _ s' => s' = s) s := by
  unfold completePrompt
  rw [wp_bind, wp_onIndex]
  refine wp_mono (lookup_spec chainId) ?_ fun e index ⟨hindex, _⟩ => by rw [hindex]
  rintro r index ⟨rfl, hr⟩
  have hid := h.index.keys chainId r hr
  rw [writeRecord, wp_onIndex, wp_modify]
  have hrecords : (setRecord { r with reservedSlotsByLayer := [], reservedRows := 0 } s.index).records =
      s.index.records.set chainId { r with reservedSlotsByLayer := [], reservedRows := 0 } := by
    rw [← hid]
    rfl
  refine ⟨h.rewrite (q := { r with reservedSlotsByLayer := [], reservedRows := 0 })
    (h.index.setRecord hr hid rfl rfl rfl) ⟨hr, hid, rfl, hrecords, rfl, rfl⟩
    fun hbusy => h.records chainId r hr hbusy, fun k r' hr' => ?_⟩
  rw [hrecords, get?_set] at hr'
  split at hr'
  · next heq =>
    cases hr'
    exact ⟨r, heq ▸ hr, rfl, rfl, rfl, rfl⟩
  · exact ⟨r', hr', .refl r'⟩

/-- Each call keeps the accounts, also when it raises. -/
theorem RuntimeOp.keeps (hl : hooks.Lawful) (h : Accounts hooks cfg [] s) (op : RuntimeOp ι δ μ)
    (hop : op.Permitted hooks s) : Keeps (Accounts hooks cfg []) (op.run hooks cfg) s := by
  have hsame : ∀ (_ : PyError) (s' : ChainRuntime ι φ δ μ κ), s' = s → Accounts hooks cfg [] s' := by
    rintro - s' rfl
    exact h
  have happly : ∀ {plan s₁}, Accounts hooks cfg [] s₁ → PlannedHere s₁.index plan →
      wp (do
          let _ ← chainApplyAdmission hooks cfg plan : RuntimeM ι φ δ μ κ Unit)
        (fun _ => Accounts hooks cfg []) (fun _ => Accounts hooks cfg []) s₁ := by
    intro plan s₁ h₁ hplan
    rw [wp_bind]
    exact wp_mono (chainApplyAdmission_spec hl h₁ hplan) (fun _ _ hs => hs.1) fun _ _ hs => hs.1
  unfold Keeps
  cases op with
  | admission chainId seqId tokenIds polled =>
    rw [RuntimeOp.run, wp_bind]
    refine wp_mono (planAdmission_spec h chainId seqId tokenIds polled) ?_ fun _ _ he => he.1
    rintro plan s₁ ⟨⟨h₁, -⟩, -, -, hplan⟩
    exact happly h₁ hplan
  | follow expected count digest polled =>
    rw [RuntimeOp.run, wp_bind]
    refine wp_mono (validateAdmissionPlan_spec h expected count digest polled) ?_ fun _ _ he => he.1
    rintro plan s₁ ⟨⟨h₁, -⟩, -, hplan⟩
    exact happly h₁ hplan
  | finish chainId seqId digest processed polled =>
    rw [RuntimeOp.run, wp_bind]
    exact wp_mono (chainFinish_spec hl h chainId seqId digest processed polled) (fun _ _ hs => hs.1)
      fun _ _ hs => hs.1
  | remember prepared =>
    rw [RuntimeOp.run, wp_bind, wp_onIndex]
    refine wp_mono (rememberPreparedTokens_spec h.index prepared) ?_ ?_
    · rintro q index ⟨hinv, r, hrewritten, rfl, -⟩
      exact h.rewrite hinv hrewritten fun hid => h.records _ r hrewritten.before hid
    · rintro e index rfl
      exact h
  | reclaimIdle chainId seqId demote =>
    exact wp_mono (chainReclaimIdle_spec hl h chainId seqId demote) (fun _ _ hs => hs.1)
      fun _ _ hs => hs.1
  | invalidate chainId expectedSeqId =>
    exact wp_mono (chainInvalidate_spec hl h chainId expectedSeqId) (fun _ _ hs => hs.1)
      fun e s' he => hsame e s' he.1
  | poll polled =>
    rw [RuntimeOp.run, wp_whenOffload]
    refine ⟨fun _ => h, fun _ => ?_⟩
    obtain ⟨hinv, hsettled⟩ := h.offload.poll polled
    exact h.settle hinv hsettled
  | routingSnapshot =>
    rw [RuntimeOp.run, wp_bind, wp_onIndex]
    refine wp_mono (routingSnapshot_spec h.index) ?_ fun _ _ hf => hf.elim
    rintro snapshot index ⟨hinv, -, hrecords⟩
    exact h.of_records hinv hrecords
  | step f =>
    refine h.manage fun id r hr _ hrows hres => hop id r hr ?_ hres
    rcases h.records id r hr nofun with ⟨-, hidle, -⟩ | ⟨hone, -⟩
    · exact hidle
    · rw [hrows] at hone
      cases hone
  | completePrompt chainId =>
    exact wp_mono (completePrompt_spec h chainId) (fun _ _ hs => hs.1) fun _ _ he => he ▸ h
  | reset => exact wp_mono (reset_spec h) (fun _ _ hs => hs.1) fun _ _ hf => hf.elim

omit [DecidableEq φ] [DecidableEq δ] in
theorem accounts_start (m : μ) : Accounts hooks cfg [] ({ manager := m } : ChainRuntime ι φ δ μ κ) :=
  ⟨inv_empty, inv_empty, fun n _ => Int.natCast_nonneg n,
    fun _ _ => rfl, fun _ hi => absurd rfl hi, nofun⟩

theorem Reachable.accounts (hl : hooks.Lawful) (h : Reachable hooks cfg s) :
    Accounts hooks cfg [] s := by
  induction h with
  | start m => exact accounts_start m
  | step op _ hop ih => exact keeps_iff.mp (op.keeps hl ih hop)

omit [DecidableEq φ] [DecidableEq δ] in
/-- A chain off the device can be restored: its wait succeeds. -/
theorem Accounts.restorable (h : Accounts hooks cfg [] s) (hr : s.index.records.get? id = some r)
    (hrows : r.residentRows = 0) :
    r.state = .idle ∧ hooks.hasResidency s.manager r.seqId = false ∧
      ∃ snapshot o, wait r.seqId s.offload = (.ok snapshot, o) ∧ snapshot.valid = true := by
  rcases h.records id r hr nofun with ⟨-, hidle, hstatus, hres⟩ | ⟨hone, -⟩
  · refine ⟨hidle, hres, ?_⟩
    have hspec := wait_spec h.offload r.seqId
    cases hrun : wait r.seqId s.offload with
    | mk result o =>
      cases result with
      | error e =>
        obtain ⟨-, -, hnone⟩ := (wp_of_error hrun).mp hspec
        rw [← status_settled, status_eq_none.mpr hnone] at hstatus
        cases hstatus
      | ok snapshot =>
        obtain ⟨-, hsettled, hget, hc, -⟩ := (wp_of_ok hrun).mp hspec
        refine ⟨snapshot, o, rfl, ?_⟩
        rw [← status_settled, ← hsettled, status_settled] at hstatus
        unfold status at hstatus
        rw [hget, Option.map_some, hc, Bool.false_or] at hstatus
        exact Option.some.inj hstatus
  · rw [hrows] at hone
    cases hone

/-- In every state of a run the used bytes are those of the stored snapshots and within the budget,
the copies with an event are the queued ones, and a chain without a row can be restored. -/
theorem chain_offload_accounting (hl : hooks.Lawful) (hquiet : ¬ SaveRaises hooks capacityNotReserved)
    (h : Reachable hooks cfg s) :
    s.offload.usedBytes = ((s.offload.snapshots.values.map (·.nbytes)).sum : Nat) ∧
    (∀ n, cfg.capacityBytes = some n → s.offload.usedBytes ≤ n) ∧
    (∀ i, i ∈ s.offload.pending.keys ↔
      ∃ snapshot, s.offload.snapshots.get? i = some snapshot ∧ snapshot.completion = true) ∧
    (∀ id r, s.index.records.get? id = some r → r.state = .idle → r.residentRows = 0 →
      ∃ snapshot o, wait r.seqId s.offload = (.ok snapshot, o) ∧ snapshot.valid = true) ∧
    (∀ c r digest n polled q s₁, s.index.records.get? c = some r → r.state = .active →
      finishTurn hooks cfg c r.seqId digest n s = (.ok q, s₁) →
      (∀ id a, s₁.index.records.get? id = some a → a.state = .active →
        (saveFinishedChain hooks cfg q polled s₁).2.index.records.get? id = some a) ∧
      (saveFinishedChain hooks cfg q polled s₁).1 ≠ .error capacityNotReserved) ∧
    (∀ chainId seqId input decode polled plan s₁ e s' r,
      planWith hooks cfg chainId seqId input decode polled s = (.ok plan, s₁) →
      chainApplyAdmission hooks cfg plan s₁ = (.error e, s') →
      s.index.records.get? chainId = some r → r.residentRows = 0 →
      ∃ r', s'.index.records.get? chainId = some r' ∧ r'.state = .idle ∧ r'.residentRows = 0 ∧
        hooks.hasResidency s'.manager r'.seqId = false ∧
        ∃ snapshot o, wait r'.seqId s'.offload = (.ok snapshot, o) ∧
          snapshot.valid = true) := by
  have hacc := h.accounts hl
  refine ⟨?_, hacc.bounded, fun i => ?_, fun id r hr _ hrows => (hacc.restorable hr hrows).2.2, ?_, ?_⟩
  · rw [hacc.offload.used]
    unfold sumBy values
    rw [map_map]
    rfl
  · rw [Dict.mem_keys, ← hacc.offload.pending i]
    exact ⟨fun ⟨_, hv⟩ => hv, fun hv => ⟨(), hv⟩⟩
  · intro c r digest n polled q s₁ hr _ hturn
    obtain ⟨h₁, hrows, hrewritten, -⟩ := (wp_of_ok hturn).mp (finishTurn_spec hl hacc hr digest n)
    have hq : s₁.index.records.get? c = some q := by
      rw [hrewritten.records, get?_set_self]
    have hspec := saveFinishedChain_spec hl h₁ hq hrows polled
    cases hrun : saveFinishedChain hooks cfg q polled s₁ with
    | mk result s₂ =>
      cases result with
      | ok u =>
        obtain ⟨-, hspares⟩ := (wp_of_ok hrun).mp hspec
        exact ⟨fun id a ha hactive => hspares.stays id a ha (.inr hactive), nofun⟩
      | error e =>
        obtain ⟨-, hspares, hraises⟩ := (wp_of_error hrun).mp hspec
        refine ⟨fun id a ha hactive => hspares.stays id a ha (.inr hactive), fun he => ?_⟩
        have he : e = capacityNotReserved := Except.error.inj he
        exact hquiet (he ▸ hraises he)
  · intro chainId seqId input decode polled plan s₁ e s' r hplan hrun hr hrows
    obtain ⟨⟨h₁, hindex, -⟩, hid, -, hplanned⟩ :=
      (wp_of_ok hplan).mp (planWith_spec hacc chainId seqId input decode polled)
    obtain ⟨h₂, -, hhosted⟩ := (wp_of_error hrun).mp (chainApplyAdmission_spec hl h₁ hplanned)
    obtain ⟨r', hr', hrows'⟩ := hhosted r (by rw [hid, hindex, hr]) hrows
    rw [hid] at hr'
    obtain ⟨hidle, hres, hsnapshot⟩ := h₂.restorable hr' hrows'
    exact ⟨r', hr', hidle, hrows', hres, hsnapshot⟩

/-- The record of a chain counts one resident row, or it counts none and the chain is IDLE with a
valid snapshot and nothing on the device; a snapshot belongs to a chain. -/
theorem chain_residency (hl : hooks.Lawful) (h : Reachable hooks cfg s) :
    (∀ id r, s.index.records.get? id = some r →
      r.residentRows = 0 ∧ r.state = .idle ∧ s.offload.status r.seqId = some true ∧
        hooks.hasResidency s.manager r.seqId = false ∨
      r.residentRows = 1 ∧ (r.state = .idle → s.offload.status r.seqId ≠ some false)) ∧
    (∀ i, s.offload.snapshots.contains i = true →
      ∃ id r, s.index.records.get? id = some r ∧ r.seqId = i) ∧
    (cfg.capacityBytes = none → ∀ i, s.offload.snapshots.contains i = false) := by
  have accounts := h.accounts hl
  refine ⟨fun id r hr => accounts.records id r hr not_mem_nil, fun i hi => ?_, fun hnone i => ?_⟩
  · rw [← isSome_status, Option.isSome_iff_ne_none] at hi
    exact accounts.owned i hi
  · rw [← isSome_status, accounts.disabled hnone i]
    rfl

end

def demoChainManager : ChainManager (List Nat) Unit where
  numKvLayers := 1
  tokenBytes := [8]
  methodBytes := fun _ => 0
  streamCapturing := fun _ => false
  hasResidency := fun m i => decide (i ∈ m)
  physicalResidency := fun m i => if i ∈ m then .ok [3] else .error (.runtimeError "Missing chain row")
  capacityResidency := none
  capacityDeficits := fun _ query =>
    { requiredSlots := [query.suffixTokens], requiredRows := 0, slotDeficits := [0], rowDeficit := 0 }
  decodeReserved := fun _ => []
  releaseDecode := fun _ m => m
  onChainTurnFinished := fun _ _ => pure ()
  snapshotMethodState := fun _ => pure ()
  submitCopy := fun _ _ => pure ()
  allocateChainRestore := fun i _ => PyM.modify (i :: ·)
  restoreCopy := fun _ _ => pure ()
  freeSeq := fun i m => m.filter (· ≠ i)
  freeSeqPayload := fun i m => m.filter (· ≠ i)

theorem demoChainManager_lawful : demoChainManager.Lawful := by
  have hfilter : ∀ (i : Nat) (m : List Nat) (j : Nat), decide (j ∈ m.filter (· ≠ i)) = true →
      j ≠ i ∧ decide (j ∈ m) = true := by
    intro i m j hj
    rw [decide_eq_true_eq, mem_filter, decide_eq_true_eq] at hj
    exact ⟨hj.2, decide_eq_true hj.1⟩
  refine ⟨hfilter, hfilter, fun _ _ _ => rfl, fun _ _ _ _ _ => rfl, fun _ _ _ => rfl,
    fun _ _ _ _ => rfl, fun i _ m j hj => ?_, nofun, fun _ _ _ _ _ => rfl⟩
  refine decide_eq_decide.mpr ?_
  show j ∈ i :: m ↔ j ∈ m
  rw [mem_cons]
  exact ⟨fun h => h.resolve_left hj, .inr⟩

theorem demoChainManager_quiet : ¬ SaveRaises demoChainManager capacityNotReserved := by
  rintro (⟨i, state, m, h⟩ | ⟨i, m, h⟩ | ⟨i, m, h⟩)
  · cases h
  · simp only [demoChainManager] at h
    split at h
    · cases h
    · have hmessage := Except.error.inj h
      exact absurd hmessage (by decide)
  · cases h

def demoRuntimeConfig : ChainRuntimeConfig Unit Int where
  index := demoChainConfig
  fingerprint := ()
  capacityBytes := some 100
  capacityBytes_pos := by
    rintro n h
    cases h
    decide

abbrev DemoRuntime := ChainRuntime Nat Unit Int (List Nat) Unit

def demoAdmitted : DemoRuntime :=
  ((RuntimeOp.step (3 :: ·)).run demoChainManager demoRuntimeConfig
    ((RuntimeOp.admission 7 3 [1, 2] 0).run demoChainManager demoRuntimeConfig { manager := [] }).2).2

def demoHosted : DemoRuntime :=
  ((RuntimeOp.reclaimIdle 7 3 true).run demoChainManager demoRuntimeConfig
    ((RuntimeOp.finish 7 3 3 2 0).run demoChainManager demoRuntimeConfig demoAdmitted).2).2

theorem demoHosted_reachable : Reachable demoChainManager demoRuntimeConfig demoHosted := by
  refine .step _ (.step _ (.step _ (.step _ (.start []) trivial) ?_) trivial) trivial
  intro id r hr hidle
  have hrecord : ((RuntimeOp.admission 7 3 [1, 2] 0).run demoChainManager demoRuntimeConfig
      ({ manager := [] } : DemoRuntime)).2.index.records.values.all
        (fun r => decide (r.state = .active)) = true := by
    decide +kernel
  have hactive := all_eq_true.mp hrecord r (mem_values.mpr ⟨id, hr⟩)
  rw [decide_eq_true_eq, hidle] at hactive
  cases hactive

/-- The demoted chain holds 24 bytes on the host and can be restored. -/
theorem chain_offload_accounting_demo :
    demoHosted.offload.usedBytes = 24 ∧
      (demoHosted.index.records.get? 7).map (fun r => (r.state, r.residentRows)) =
        some (ChainState.idle, 0) ∧
      (∀ id r, demoHosted.index.records.get? id = some r → r.state = .idle → r.residentRows = 0 →
        ∃ snapshot o, wait r.seqId demoHosted.offload = (.ok snapshot, o) ∧
          snapshot.valid = true) :=
  ⟨by decide +kernel, by decide +kernel,
    (chain_offload_accounting demoChainManager_lawful demoChainManager_quiet
      demoHosted_reachable).2.2.2.1⟩

theorem chain_residency_demo :
    ∃ id r, demoHosted.index.records.get? id = some r ∧ r.seqId = 3 :=
  (chain_residency demoChainManager_lawful demoHosted_reachable).2.1 3 (by decide +kernel)

end SparseEngine.ChainRuntime
