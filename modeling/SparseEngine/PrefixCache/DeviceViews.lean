import SparseEngine.PrefixCache.Evictions

/-! The scan of `_device_reclaimable_block_ids` computes `Demotable`. -/

namespace SparseEngine.RadixPrefixIndex

open PyM

variable {ι π : Type} [LinearOrder ι]

section

variable {s : RadixPrefixIndex ι π} {blocks : Dict ι (PrefixCacheBlock ι π)}
  {includeInflightD2h : Bool}

def deviceSet (blocks : Dict ι (PrefixCacheBlock ι π)) : Finset ι :=
  blocks.keySet.filter fun id => blockWith blocks (fun b => b.residency.devicePresent) id = true

/-- The block `id` is locally reclaimable. -/
def LocallyReclaimable (includeInflightD2h : Bool) (blocks : Dict ι (PrefixCacheBlock ι π))
    (id : ι) : Prop :=
  ∃ b, blocks.get? id = some b ∧ b.locallyReclaimable includeInflightD2h = true

theorem mem_deviceSet {id : ι} :
    id ∈ deviceSet blocks ↔ ∃ b, blocks.get? id = some b ∧ b.residency.devicePresent = true := by
  simp only [deviceSet, Finset.mem_filter, Dict.mem_keySet]
  constructor
  · rintro ⟨⟨b, hb⟩, hd⟩
    exact ⟨b, hb, by simpa [blockWith, hb] using hd⟩
  · rintro ⟨b, hb, hd⟩
    exact ⟨⟨b, hb⟩, by simpa [blockWith, hb] using hd⟩

omit [LinearOrder ι] in
theorem devicePresent_of_locallyReclaimable {b : PrefixCacheBlock ι π}
    (h : b.locallyReclaimable includeInflightD2h = true) : b.residency.devicePresent = true := by
  simp only [PrefixCacheBlock.locallyReclaimable, Bool.and_eq_true] at h
  exact h.1.2

theorem locallyReclaimable_iff {id : ι} {b : PrefixCacheBlock ι π}
    (hb : blocks.get? id = some b) : LocallyReclaimable includeInflightD2h blocks id ↔
      b.locallyReclaimable includeInflightD2h = true := by
  constructor
  · rintro ⟨b', hb', h⟩
    rw [hb] at hb'
    cases hb'
    exact h
  · exact fun h => ⟨b, hb, h⟩

theorem deviceReclaimableLoop_spec (h : WellFormed s) {fuel : Nat} {stack : List ι}
    {F : Finset ι} {counts : Dict ι Int} (hkeys : counts.keySet = deviceSet s.blocks)
    (hp : Peel (deviceSet s.blocks) (parentMap s.blocks)
      (LocallyReclaimable includeInflightD2h s.blocks) F (countAt counts) stack)
    (hfuel : Peel.measure (deviceSet s.blocks) (countAt counts) stack < fuel) :
    ∃ F' cnt', deviceReclaimableLoop includeInflightD2h s.blocks fuel stack F counts = .ok F' ∧
      Peel (deviceSet s.blocks) (parentMap s.blocks)
        (LocallyReclaimable includeInflightD2h s.blocks) F' cnt' [] := by
  induction fuel generalizing stack F counts with
  | zero => omega
  | succ fuel ih =>
    cases stack with
    | nil => exact ⟨F, countAt counts, rfl, hp⟩
    | cons x stack =>
      obtain ⟨hxS, hxF, -⟩ := hp.pop_ready
      obtain ⟨b, hb, hd⟩ := mem_deviceSet.mp hxS
      have hmeas := Peel.measure_pop (deviceSet s.blocks) (countAt counts) x stack
      simp only [deviceReclaimableLoop, hb]
      by_cases hrec : b.locallyReclaimable includeInflightD2h = true
      · have hok := (locallyReclaimable_iff hb).mpr hrec
        rw [if_neg (by simp [hxF, hrec])]
        cases hbp : b.parentBlockId with
        | none =>
          have hroot : ∀ y ∈ deviceSet s.blocks, parentMap s.blocks x ≠ some (some y) := by
            intro y _
            rw [parentMap_of_get hb, hbp]
            simp
          exact ih hkeys (hp.pop_root hok hroot) (by omega)
        | some p =>
          -- The parent is on the device too, so its counter exists.
          have hpx : parentMap s.blocks x = some (some p) := (parentMap_of_get hb).trans (by rw [hbp])
          obtain ⟨pb, hpb⟩ := Dict.mem_keySet.mp (h.forest.closed x p hpx)
          have hpS : p ∈ deviceSet s.blocks :=
            mem_deviceSet.mpr ⟨pb, hpb, h.residency.device x b p pb hb hbp hpb hd⟩
          have hne : p ≠ x := by
            rintro rfl
            exact h.forest.not_below_parent hpx .refl
          have hpk : p ∈ counts.keySet := hkeys ▸ hpS
          have hstep := hp.pop_child hok hpx hpS hne
          have hmeas := hp.measure_pop_child hpx hpS
          rw [← countAt_set] at hstep hmeas
          simp only [get?_eq_countAt hpk]
          exact ih ((keySet_set_of_mem hpk).trans hkeys) hstep (by omega)
      · have hno : ¬ LocallyReclaimable includeInflightD2h s.blocks x := by
          rw [locallyReclaimable_iff hb]
          exact hrec
        rw [if_pos (by simp [hrec])]
        exact ih hkeys (hp.pop_blocked hno) (by omega)

theorem deviceCounts_spec (h : WellFormed s) : ∀ (ids : List ι) (d : Dict ι Int),
    (∀ x ∈ ids, x ∈ s.blocks.keySet) →
    ∃ d', ids.foldlM (fun d blockId => do
        let count ← s.deviceChildCount blockId
        return d.set blockId (count : Int)) d = .ok d' ∧
      d'.keySet = ids.toFinset ∪ d.keySet ∧
      ∀ x, (∀ n : Int, d.get? x = some n → n = (deviceChildren s.blocks x).card) →
        ∀ n : Int, d'.get? x = some n → n = (deviceChildren s.blocks x).card := by
  intro ids
  induction ids with
  | nil => intro d _; exact ⟨d, rfl, by simp, fun x hx => hx⟩
  | cons a ids ih =>
    intro d hids
    obtain ⟨n, hn, -, hcard⟩ := deviceChildCount_spec h (hids a List.mem_cons_self)
    obtain ⟨d', hrun, hk, hget⟩ := ih (d.set a (n : Int)) fun x hx =>
      hids x (List.mem_cons_of_mem _ hx)
    refine ⟨d', ?_, ?_, fun x hx => hget x fun m hm => ?_⟩
    · rw [List.foldlM_cons, hn]
      exact hrun
    · rw [hk, Dict.keySet_set]
      ext x
      simp only [Finset.mem_union, List.mem_toFinset, Finset.mem_insert, List.mem_cons]
      tauto
    · by_cases hxa : x = a
      · subst hxa
        rw [Dict.get?_set_self] at hm
        cases hm
        rw [hcard]
        rfl
      · rw [Dict.get?_set_ne _ _ hxa] at hm
        exact hx m hm

theorem demotable_of_fixpoint (h : WellFormed s) {F : Finset ι} (hsub : ∀ b ∈ F, b ∈ deviceSet s.blocks)
    (hfix : ∀ b ∈ deviceSet s.blocks, b ∈ F ↔ LocallyReclaimable includeInflightD2h s.blocks b ∧
      ∀ c ∈ deviceSet s.blocks, parentMap s.blocks c = some (some b) → c ∈ F) (id : ι) :
    id ∈ F ↔ Demotable includeInflightD2h s.blocks id := by
  have key : ∀ id ∈ s.blocks.keySet, id ∈ F ↔ Demotable includeInflightD2h s.blocks id := by
    refine h.forest.child_induction fun id _ ih => ?_
    constructor
    · intro hF
      obtain ⟨⟨b, hb, hrec⟩, hch⟩ := (hfix id (hsub id hF)).mp hF
      refine .demote hb hrec fun c cb hc hcp hcd => ?_
      have hpar : parentMap s.blocks c = some (some id) := (parentMap_of_get hc).trans (by rw [hcp])
      exact (ih c hpar).mp (hch c (mem_deviceSet.mpr ⟨cb, hc, hcd⟩) hpar)
    · intro hdem
      cases hdem with
      | demote hb hrec hch =>
        refine (hfix id (mem_deviceSet.mpr ⟨_, hb, devicePresent_of_locallyReclaimable hrec⟩)).mpr
          ⟨⟨_, hb, hrec⟩, fun c hc hpar => ?_⟩
        obtain ⟨cb, hcb, hcd⟩ := mem_deviceSet.mp hc
        obtain ⟨cb', hcb', hcp⟩ := parentMap_eq.mp hpar
        rw [hcb] at hcb'
        cases hcb'
        exact (ih c hpar).mpr (hch c cb hcb hcp hcd)
  constructor
  · intro hF
    exact (key id (Finset.mem_filter.mp (hsub id hF)).1).mp hF
  · intro hdem
    refine (key id ?_).mpr hdem
    cases hdem with
    | demote hb _ _ => exact Dict.mem_keySet.mpr ⟨_, hb⟩

theorem deviceReclaimableScan_spec (includeInflightD2h : Bool) (h : WellFormed s) :
    ∃ F, deviceReclaimableScan includeInflightD2h s = .ok F ∧
      ∀ id, id ∈ F ↔ Demotable includeInflightD2h s.blocks id := by
  set ids := (s.blocks.entries.filter fun e => e.2.residency.devicePresent).map Prod.fst with hids
  have hmem : ∀ x, x ∈ ids ↔ x ∈ deviceSet s.blocks := by
    intro x
    rw [mem_deviceSet]
    exact deviceIds_mem
  obtain ⟨counts, hrun, hk, hget⟩ := deviceCounts_spec h ids Dict.empty fun x hx => by
    exact (Finset.mem_filter.mp ((hmem x).mp hx)).1
  have hk : counts.keySet = deviceSet s.blocks := by
    ext x
    rw [hk, Finset.mem_union, List.mem_toFinset, hmem]
    simp
  have hcount : ∀ x ∈ deviceSet s.blocks,
      counts.get? x = some ((deviceChildren s.blocks x).card : Int) := by
    intro x hx
    obtain ⟨n, hn⟩ := Dict.mem_keySet.mp (hk.symm ▸ hx)
    rw [hn, hget x (by simp) n hn]
  -- Before anything is demoted, every device child is kept.
  have hkept : ∀ x, keptChildren (deviceSet s.blocks) (parentMap s.blocks) ∅ x =
      deviceChildren s.blocks x := by
    intro x
    ext c
    simp only [mem_keptChildren, Finset.notMem_empty, not_false_eq_true, and_true, deviceChildren,
      deviceSet, Finset.mem_filter, and_assoc]
  have hpeel : Peel (deviceSet s.blocks) (parentMap s.blocks)
      (LocallyReclaimable includeInflightD2h s.blocks) ∅ (countAt counts)
      ((counts.entries.filter fun e => e.2 = 0).map Prod.fst).reverse := by
    refine ⟨by simp, fun b hb => ?_, by simp, fun b hb => ?_, nodup_zeroIds counts,
      fun b hb h0 => ?_⟩
    · rw [hkept, countAt, hcount b hb]
      rfl
    · have hb0 := mem_zeroIds.mp hb
      refine ⟨hk ▸ Dict.mem_keySet.mpr ⟨0, hb0⟩, Finset.notMem_empty b, ?_⟩
      simp [countAt, hb0]
    · refine Or.inr (Or.inl (mem_zeroIds.mpr ?_))
      rw [get?_eq_countAt (hk.symm ▸ hb), h0]
  have hmeasure : Peel.measure (deviceSet s.blocks) (countAt counts)
      ((counts.entries.filter fun e => e.2 = 0).map Prod.fst).reverse < 2 * s.blocks.size + 1 := by
    have hcard : (deviceSet s.blocks).card ≤ s.blocks.size := by
      rw [← Dict.card_keySet]
      exact Finset.card_filter_le _ _
    have h1 : ((deviceSet s.blocks).filter fun b => countAt counts b ≠ 0).card ≤
        (deviceSet s.blocks).card := Finset.card_filter_le _ _
    have h2 : ((counts.entries.filter fun e => e.2 = 0).map Prod.fst).reverse.length ≤
        (deviceSet s.blocks).card := by
      rw [← hk, Dict.card_keySet]
      simpa [Dict.size] using List.length_filter_le _ _
    unfold Peel.measure
    omega
  obtain ⟨F, cnt, hloop, hp⟩ := deviceReclaimableLoop_spec h hk hpeel hmeasure
  refine ⟨F, ?_, demotable_of_fixpoint h hp.sub fun b hb => hp.fixpoint hb⟩
  simp only [deviceReclaimableScan, ← hids]
  rw [hrun]
  exact hloop

/-- The view of `_device_reclaimable_block_ids`. -/
def deviceView (includeInflightD2h : Bool) : View :=
  if includeInflightD2h then .deviceReclaimable else .deviceFreeable

theorem deviceView_contains {id : ι} : (deviceView includeInflightD2h).Contains blocks id ↔
    Demotable includeInflightD2h blocks id := by
  cases includeInflightD2h <;> rfl

theorem deviceReclaimableIds_spec (h : WellFormed s) :
    wp (deviceReclaimableIds includeInflightD2h)
      (fun F s' => QueryResult (deviceView includeInflightD2h) s F ∧ Unchanged s s')
      (fun _ _ => False) s := by
  have hcache : (if includeInflightD2h then s.deviceReclaimableCache else s.deviceFreeableCache) =
      s.cache (deviceView includeInflightD2h) := by
    cases includeInflightD2h <;> rfl
  simp only [deviceReclaimableIds, wp_bind, wp_get, wp_ite, hcache]
  split
  · next hc => exact ⟨Or.inl ⟨hc, rfl⟩, .refl s⟩
  · obtain ⟨F, hrun, hmem⟩ := deviceReclaimableScan_spec includeInflightD2h h
    simp only [wp_lift, hrun, wp_modify, wp_pure]
    refine ⟨Or.inr fun id => (hmem id).trans deviceView_contains.symm, ?_⟩
    have hwf : ∀ c c', WellFormed { s with deviceFreeableCache := c, deviceReclaimableCache := c' } :=
      fun c c' => { h with }
    cases includeInflightD2h with
    | true =>
      refine ⟨.single ⟨hwf _ _, .view rfl rfl rfl fun v => ?_⟩, rfl⟩
      cases v with
      | deviceReclaimable => exact Or.inr ⟨rfl, hmem⟩
      | _ => exact Or.inl rfl
    | false =>
      refine ⟨.single ⟨hwf _ _, .view rfl rfl rfl fun v => ?_⟩, rfl⟩
      cases v with
      | deviceFreeable => exact Or.inr ⟨rfl, hmem⟩
      | _ => exact Or.inl rfl

end

section

variable {s s' : RadixPrefixIndex ι π} {v : View}

/-- The cache of `v` is from an earlier capacity epoch, or it is right. -/
structure Fresh (v : View) (s : RadixPrefixIndex ι π) : Prop where
  epoch : (s.cache v).epoch ≤ s.epochs.capacity
  right : (s.cache v).epoch = s.epochs.capacity →
    ∀ id, id ∈ (s.cache v).ids ↔ v.Contains s.blocks id

theorem Fresh.of_lt (hc : s'.cache v = s.cache v) (hlt : s.epochs.capacity < s'.epochs.capacity)
    (h : Fresh v s) : Fresh v s' := by
  have := h.epoch
  refine ⟨by rw [hc]; omega, fun he => ?_⟩
  rw [hc] at he
  omega

theorem Fresh.of_contains (hc : s'.cache v = s.cache v)
    (heq : s'.epochs.capacity = s.epochs.capacity)
    (hview : ∀ id, v.Contains s'.blocks id ↔ v.Contains s.blocks id) (h : Fresh v s) :
    Fresh v s' := by
  refine ⟨by rw [hc, heq]; exact h.epoch, fun he id => ?_⟩
  rw [hc, heq] at he
  rw [hc, hview]
  exact h.right he id

theorem QueryResult.contains {F : Finset ι} (hq : QueryResult v s F) (h : Fresh v s) (id : ι) :
    id ∈ F ↔ v.Contains s.blocks id := by
  rcases hq with ⟨he, rfl⟩ | hq
  · exact h.right he id
  · exact hq id

omit [LinearOrder ι] in
theorem locallyBlocked_sameLocal {o n : PrefixCacheBlock ι π} (h : SameLocal o n) :
    n.locallyBlocked = o.locallyBlocked := by
  have h1 : (n.refCount ≠ 0) = (o.refCount ≠ 0) := by rw [Ne, Ne, h.refCount]
  have h2 : (n.evictionPriority < 0) = (o.evictionPriority < 0) := propext h.priority
  simp [PrefixCacheBlock.locallyBlocked, h1, h2, h.residency]

omit [LinearOrder ι] in
theorem locallyReclaimable_sameLocal {o n : PrefixCacheBlock ι π} (h : SameLocal o n)
    (includeInflightD2h : Bool) :
    n.locallyReclaimable includeInflightD2h = o.locallyReclaimable includeInflightD2h := by
  have h1 : (n.refCount = 0) = (o.refCount = 0) := propext h.refCount
  have h2 : (0 ≤ n.evictionPriority) = (0 ≤ o.evictionPriority) := by
    rw [← not_lt, ← not_lt, h.priority]
  simp [PrefixCacheBlock.locallyReclaimable, h1, h2, h.residency]

theorem Updated.symm {R : PrefixCacheBlock ι π → PrefixCacheBlock ι π → Prop}
    {blocks blocks' : Dict ι (PrefixCacheBlock ι π)} (h : Updated R blocks blocks')
    (hR : ∀ a b, R a b → R b a) : Updated R blocks' blocks := by
  refine ⟨h.keys.symm, fun id o n ho hn => ?_⟩
  obtain ⟨hid, hRon⟩ := h.same id n o hn ho
  exact ⟨⟨hid.objectId.symm, hid.stableBlockId.symm, hid.parentBlockId.symm, hid.tokenIds.symm,
    hid.logicalBlockIdx.symm⟩, hR _ _ hRon⟩

omit [LinearOrder ι] in
theorem SameLocal.symm {a b : PrefixCacheBlock ι π} (h : SameLocal a b) : SameLocal b a :=
  ⟨h.refCount.symm, h.priority.symm, h.residency.symm⟩

theorem Updated.parentMap {R : PrefixCacheBlock ι π → PrefixCacheBlock ι π → Prop}
    {blocks blocks' : Dict ι (PrefixCacheBlock ι π)} (h : Updated R blocks blocks') :
    SparseEngine.parentMap blocks' = SparseEngine.parentMap blocks := by
  funext id
  cases ho : blocks.get? id with
  | none =>
    have hn : blocks'.get? id = none := by
      have hk : id ∉ blocks'.keySet := by rw [h.keys]; simp [ho]
      simpa [Option.eq_none_iff_forall_ne_some] using hk
    simp [SparseEngine.parentMap, ho, hn]
  | some o =>
    obtain ⟨n, hn, hid, -⟩ := h.get ho
    simp [SparseEngine.parentMap, ho, hn, hid.parentBlockId]

theorem demotable_updated {includeInflightD2h : Bool}
    {blocks blocks' : Dict ι (PrefixCacheBlock ι π)} (h : Updated SameLocal blocks blocks') {id : ι}
    (hd : Demotable includeInflightD2h blocks id) : Demotable includeInflightD2h blocks' id := by
  induction hd with
  | @demote id b hb hrec hch ih =>
    obtain ⟨n, hn, -, hv⟩ := h.get hb
    refine .demote hn ((locallyReclaimable_sameLocal hv _).trans hrec) fun c cb hc hcp hcd => ?_
    obtain ⟨o, ho⟩ := Dict.mem_keySet.mp (h.keys ▸ Dict.mem_keySet.mpr ⟨cb, hc⟩)
    obtain ⟨hid, hvo⟩ := h.same c o cb ho hc
    exact ih c o ho (hid.parentBlockId ▸ hcp) (hvo.residency ▸ hcd)

theorem View.contains_updated {blocks blocks' : Dict ι (PrefixCacheBlock ι π)}
    (h : Updated SameLocal blocks blocks') (v : View) (id : ι) :
    v.Contains blocks' id ↔ v.Contains blocks id := by
  have hfree : LocallyFree blocks' = LocallyFree blocks := by
    funext x
    refine propext ⟨fun ⟨n, hn, hb⟩ => ?_, fun ⟨o, ho, hb⟩ => ?_⟩
    · obtain ⟨o, ho⟩ := Dict.mem_keySet.mp (h.keys ▸ Dict.mem_keySet.mpr ⟨n, hn⟩)
      exact ⟨o, ho, (locallyBlocked_sameLocal (h.same x o n ho hn).2).symm.trans hb⟩
    · obtain ⟨n, hn, -, hv⟩ := h.get ho
      exact ⟨n, hn, (locallyBlocked_sameLocal hv).trans hb⟩
  have hback := h.symm fun _ _ => SameLocal.symm
  cases v with
  | freeable => simp only [View.Contains, h.keys, h.parentMap, hfree]
  | evictable => simp only [View.Contains, h.parentMap, hfree]
  | deviceFreeable => exact ⟨demotable_updated hback, demotable_updated h⟩
  | deviceReclaimable => exact ⟨demotable_updated hback, demotable_updated h⟩

theorem Step.fresh (h : Step s s') (hf : Fresh v s) : Fresh v s' := by
  cases h.change with
  | update _ hlt _ _ hfr => exact hf.of_lt (hfr.cache v) hlt
  | quiet hupd heq _ _ hfr =>
    exact hf.of_contains (hfr.cache v) heq fun id =>
      View.contains_updated (hupd.mono fun _ _ h => h.toSameLocal) v id
  | remove _ _ _ _ hep _ hc =>
    refine hf.of_lt (hc v) ?_
    rw [hep]
    exact Nat.lt_succ_self _
  | view hb hep _ hc =>
    rcases hc v with hc | ⟨he, hids⟩
    · refine hf.of_contains hc (by rw [hep]) fun id => by rw [hb]
    · refine ⟨by rw [he, hep], fun _ id => ?_⟩
      rw [hb]
      exact hids id

theorem Steps.fresh (h : Steps s s') (hf : Fresh v s) : Fresh v s' := by
  induction h with
  | refl => exact hf
  | tail _ hstep ih => exact hstep.fresh ih

/-- An insertion that keeps the capacity epoch keeps the device-reclaimable view. -/
def InsertSafe (blocks : Dict ι (PrefixCacheBlock ι π)) (b : PrefixCacheBlock ι π) : Prop :=
  b.locallyBlocked = true → parentBlocked blocks b = true →
    b.locallyReclaimable true = false ∧
    (b.residency.devicePresent = true → ∀ p, b.parentBlockId = some p → ¬ Demotable true blocks p)

theorem parentBlocked_iff {blocks : Dict ι (PrefixCacheBlock ι π)} {b : PrefixCacheBlock ι π} :
    parentBlocked blocks b = true ↔ ∀ p pb, b.parentBlockId = some p → blocks.get? p = some pb →
      pb.locallyBlocked = true := by
  simp only [parentBlocked, Option.all_eq_true]
  constructor
  · exact fun h p pb hp hpb => h p hp pb hpb
  · exact fun h p hp pb hpb => h p pb hp hpb

omit [LinearOrder ι] in
theorem not_reclaimable_of_blocked {b : PrefixCacheBlock ι π} (h : b.locallyBlocked = true) :
    b.locallyReclaimable false = false := by
  simp only [PrefixCacheBlock.locallyBlocked, PrefixCacheBlock.locallyReclaimable] at h ⊢
  cases ht : b.residency.transfer <;> simp_all
  grind

structure BlockedInsert (blocks : Dict ι (PrefixCacheBlock ι π)) (b : PrefixCacheBlock ι π) :
    Prop where
  new : blocks.get? b.stableBlockId = none
  forest : Forest blocks.keySet (parentMap blocks)
  blocked : b.locallyBlocked = true
  parent : ∀ p pb, b.parentBlockId = some p → blocks.get? p = some pb → pb.locallyBlocked = true

namespace BlockedInsert

variable {blocks : Dict ι (PrefixCacheBlock ι π)} {b : PrefixCacheBlock ι π}

theorem locallyFree (h : BlockedInsert blocks b) {id : ι} :
    LocallyFree (blocks.set b.stableBlockId b) id ↔ LocallyFree blocks id := by
  by_cases hid : id = b.stableBlockId
  · subst hid
    rw [locallyFree_iff (Dict.get?_set_self _ _ _), h.blocked]
    refine ⟨by simp, fun ⟨c, hc, _⟩ => ?_⟩
    rw [h.new] at hc
    cases hc
  · rw [LocallyFree, LocallyFree, Dict.get?_set_ne _ _ hid]

theorem parent_not_free (h : BlockedInsert blocks b) {id : ι} (hp : b.parentBlockId = some id) :
    ¬ LocallyFree blocks id := by
  rintro ⟨pb, hpb, hfree⟩
  rw [h.parent id pb hp hpb] at hfree
  cases hfree

theorem not_demotable (h : BlockedInsert blocks b) {id : ι} (hp : b.parentBlockId = some id) :
    ¬ Demotable false blocks id := by
  intro hd
  cases hd with
  | demote hpb hrec _ =>
    rw [not_reclaimable_of_blocked (h.parent id _ hp hpb)] at hrec
    cases hrec

theorem parentMap_ne (blocks : Dict ι (PrefixCacheBlock ι π)) {c : ι} (hc : c ≠ b.stableBlockId) :
    parentMap (blocks.set b.stableBlockId b) c = parentMap blocks c := by
  rw [parentMap_set, Function.update_of_ne hc]

theorem parentMap_self (blocks : Dict ι (PrefixCacheBlock ι π)) :
    parentMap (blocks.set b.stableBlockId b) b.stableBlockId = some b.parentBlockId := by
  rw [parentMap_set, Function.update_self]

theorem parentMap_new (h : BlockedInsert blocks b) : parentMap blocks b.stableBlockId = none := by
  simp [parentMap, h.new]

theorem freeable (h : BlockedInsert blocks b)
    (hf : Forest (blocks.set b.stableBlockId b).keySet (parentMap (blocks.set b.stableBlockId b)))
    (id : ι) : View.freeable.Contains (blocks.set b.stableBlockId b) id ↔
      View.freeable.Contains blocks id := by
  have hnot : ¬ View.freeable.Contains blocks b.stableBlockId := by
    rintro ⟨hm, -⟩
    simp [h.new] at hm
  have hfix : ∀ x ∈ (blocks.set b.stableBlockId b).keySet, View.freeable.Contains blocks x ↔
      LocallyFree (blocks.set b.stableBlockId b) x ∧
        ∀ c, parentMap (blocks.set b.stableBlockId b) c = some (some x) →
          View.freeable.Contains blocks c := by
    intro x hx
    rw [h.locallyFree]
    constructor
    · rintro ⟨hxk, hclear⟩
      refine ⟨hclear.self, fun c hc => ?_⟩
      by_cases hcb : c = b.stableBlockId
      · subst hcb
        rw [parentMap_self] at hc
        exact absurd hclear.self (h.parent_not_free (Option.some.inj hc))
      · rw [parentMap_ne _ hcb] at hc
        exact ⟨h.forest.mem_of_parent hc, hclear.child hc⟩
    · rintro ⟨hfree, hch⟩
      have hxk : x ∈ blocks.keySet := by
        obtain ⟨xb, hxb, -⟩ := hfree
        exact Dict.mem_keySet.mpr ⟨xb, hxb⟩
      refine ⟨hxk, clear_step.mpr ⟨hfree, fun c hc => (hch c ?_).2⟩⟩
      have hcb : c ≠ b.stableBlockId := by
        rintro rfl
        rw [h.parentMap_new] at hc
        cases hc
      rw [parentMap_ne _ hcb]
      exact hc
  by_cases hid : id ∈ (blocks.set b.stableBlockId b).keySet
  · rw [clear_iff_of_fixpoint hf hfix id hid]
    exact and_iff_right hid
  · refine iff_of_false (fun hc => hid hc.1) (fun hc => hid ?_)
    rw [Dict.keySet_set]
    exact Finset.mem_insert_of_mem hc.1

theorem evictable (h : BlockedInsert blocks b) (id : ι) :
    View.evictable.Contains (blocks.set b.stableBlockId b) id ↔
      View.evictable.Contains blocks id := by
  simp only [View.Contains, h.locallyFree]
  refine and_congr_right fun hfree => ⟨fun hno c hc => hno c ?_, fun hno c hc => ?_⟩
  · have hcb : c ≠ b.stableBlockId := by
      rintro rfl
      rw [h.parentMap_new] at hc
      cases hc
    rw [parentMap_ne _ hcb]
    exact hc
  · by_cases hcb : c = b.stableBlockId
    · subst hcb
      rw [parentMap_self] at hc
      exact h.parent_not_free (Option.some.inj hc) hfree
    · rw [parentMap_ne _ hcb] at hc
      exact hno c hc

theorem demotable (h : BlockedInsert blocks b) {includeInflightD2h : Bool}
    (hb : b.locallyReclaimable includeInflightD2h = false)
    (hp : b.residency.devicePresent = true → ∀ p, b.parentBlockId = some p →
      ¬ Demotable includeInflightD2h blocks p) (id : ι) :
    Demotable includeInflightD2h (blocks.set b.stableBlockId b) id ↔
      Demotable includeInflightD2h blocks id := by
  have hget : ∀ {x xb}, blocks.get? x = some xb → x ≠ b.stableBlockId := by
    rintro x xb hx rfl
    rw [h.new] at hx
    cases hx
  constructor
  · intro hd
    induction hd with
    | @demote id c hc hrec hch ih =>
      have hne : id ≠ b.stableBlockId := by
        rintro rfl
        rw [Dict.get?_set_self] at hc
        cases hc
        rw [hb] at hrec
        cases hrec
      rw [Dict.get?_set_ne _ _ hne] at hc
      refine .demote hc hrec fun x xb hx hxp hxd => ih x xb ?_ hxp hxd
      rw [Dict.get?_set_ne _ _ (hget hx)]
      exact hx
  · intro hd
    induction hd with
    | @demote id c hc hrec hch ih =>
      have hc' := hc
      rw [← Dict.get?_set_ne _ b (hget hc)] at hc'
      refine .demote hc' hrec fun x xb hx hxp hxd => ?_
      by_cases hxb : x = b.stableBlockId
      · subst hxb
        rw [Dict.get?_set_self] at hx
        cases hx
        exact absurd (.demote hc hrec hch) (hp hxd id hxp)
      · rw [Dict.get?_set_ne _ _ hxb] at hx
        exact ih x xb hx hxp hxd

end BlockedInsert

theorem InsertStep.capacity {b : PrefixCacheBlock ι π} (h : InsertStep s b s')
    (hf : Forest s.blocks.keySet (parentMap s.blocks)) :
    s.epochs.capacity < s'.epochs.capacity ∨ (s'.epochs.capacity = s.epochs.capacity ∧
      b.locallyBlocked = true ∧ parentBlocked s.blocks b = true ∧ BlockedInsert s.blocks b) := by
  rw [h.epochs]
  cases hb : b.locallyBlocked <;> cases hp : parentBlocked s.blocks b
  case true.true =>
    exact Or.inr ⟨rfl, rfl, rfl, h.new, hf, hb, parentBlocked_iff.mp hp⟩
  all_goals exact Or.inl (Nat.lt_succ_self _)

theorem InsertStep.contains {b : PrefixCacheBlock ι π} (h : InsertStep s b s')
    (hwf : WellFormed s) (hsafe : v = .deviceReclaimable → InsertSafe s.blocks b)
    (heq : s'.epochs.capacity = s.epochs.capacity) (id : ι) :
    v.Contains s'.blocks id ↔ v.Contains s.blocks id := by
  rcases h.capacity hwf.forest with hlt | ⟨-, hb, hp, hblk⟩
  · exact absurd heq hlt.ne'
  rw [h.blocks]
  cases v with
  | freeable => exact hblk.freeable (h.blocks ▸ h.wf.forest) id
  | evictable => exact hblk.evictable id
  | deviceFreeable =>
    exact hblk.demotable (not_reclaimable_of_blocked hblk.blocked)
      (fun _ p hp hd => hblk.not_demotable hp hd) id
  | deviceReclaimable =>
    obtain ⟨h1, h2⟩ := hsafe rfl hb hp
    exact hblk.demotable h1 h2 id

theorem InsertStep.fresh {b : PrefixCacheBlock ι π} (h : InsertStep s b s') (hwf : WellFormed s)
    (hsafe : v = .deviceReclaimable → InsertSafe s.blocks b) (hf : Fresh v s) : Fresh v s' := by
  rcases h.capacity hwf.forest with hlt | ⟨heq, -⟩
  · exact hf.of_lt (h.framed.cache v) hlt
  · exact hf.of_contains (h.framed.cache v) heq (h.contains hwf hsafe heq)

end

end SparseEngine.RadixPrefixIndex
