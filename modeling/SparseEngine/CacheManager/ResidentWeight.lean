import SparseEngine.PrefixCache.Runs

/-! `_prefix_resident_weight_for_ids` keeps, for every named view, the last id set and its total. -/

namespace SparseEngine

open RadixPrefixIndex Finset Dict

/-- `_ResidentWeightCache`. -/
structure ResidentWeightCache (ι : Type) where
  index : Nat
  payloadEpoch : Nat
  totals : Dict String (Finset ι × Int) := .empty
  weights : Dict ι Int := .empty

structure WeightState (ι π : Type) where
  index : RadixPrefixIndex ι π := {}
  indexId : Nat := 0
  cache : Option (ResidentWeightCache ι) := none

namespace ResidentWeightCache

variable {ι π : Type} [LinearOrder ι]

local instance leTrans : IsTrans ι (· ≤ ·) := inferInstance

local instance leAntisymm : Std.Antisymm fun a b : ι => a ≤ b := inferInstance

/-- `sum(self.weights[block_id] for block_id in ids)`. -/
def sumWeights (weights : Dict ι Int) (ids : Finset ι) : Except PyError Int :=
  (ids.sort (· ≤ ·)).foldlM (fun total id => do
    let weight ← RadixPrefixIndex.entry weights id
    return total + weight) 0

/-- The loop of `discard` over the views. -/
def discardTotals (weights : Dict ι Int) (removedIds : Finset ι) :
    List (String × Finset ι × Int) → Dict String (Finset ι × Int) →
      Except PyError (Dict String (Finset ι × Int))
  | [], totals => .ok totals
  | (view, blockIds, total) :: views, totals => do
    let removed := blockIds ∩ removedIds
    if removed = ∅ then
      discardTotals weights removedIds views totals
    else
      let weight ← sumWeights weights removed
      discardTotals weights removedIds views (totals.set view (blockIds \ removed, total - weight))

def discard (cache : ResidentWeightCache ι) (removedIds : Finset ι) :
    Except PyError (ResidentWeightCache ι) := do
  let totals ← discardTotals cache.weights removedIds cache.totals.entries cache.totals
  return { cache with
    totals := totals
    weights := (removedIds.sort (· ≤ ·)).foldl (fun d id => d.erase id) cache.weights }

/-- `_prefix_block_capacity_weight(block) if block.residency.device_present else 0`. -/
def blockWeight (weight : π → Int) (block : PrefixCacheBlock ι π) : Int :=
  if block.residency.devicePresent then weight block.payload else 0

def addWeights (weight : π → Int) (blocks : Dict ι (PrefixCacheBlock ι π)) :
    List ι → Dict ι Int → Int → Bool → Dict ι Int × Int × Bool
  | [], weights, total, missingBlock => (weights, total, missingBlock)
  | id :: ids, weights, total, missingBlock =>
    match weights.get? id with
    | some w => addWeights weight blocks ids weights (total + w) missingBlock
    | none =>
      match blocks.get? id with
      | none => addWeights weight blocks ids weights total true
      | some block =>
        addWeights weight blocks ids (weights.set id (blockWeight weight block))
          (total + blockWeight weight block) missingBlock

/-- The cache that a call works with. -/
def refreshCache (s : WeightState ι π) (removedIds : Option (Finset ι)) :
    Except PyError (ResidentWeightCache ι) :=
  match s.cache, removedIds with
  | some cache, some removedIds =>
    if cache.index ≠ s.indexId ∨ cache.payloadEpoch ≠ s.index.epochs.residentPayload then
      .ok ⟨s.indexId, s.index.epochs.residentPayload, .empty, .empty⟩
    else if removedIds = ∅ then
      .ok cache
    else
      cache.discard removedIds
  | _, _ => .ok ⟨s.indexId, s.index.epochs.residentPayload, .empty, .empty⟩

/-- The total of `blockIds` from the total of the previous ids of the view. -/
def updateView (weight : π → Int) (blocks : Dict ι (PrefixCacheBlock ι π)) (view : String)
    (blockIds : Finset ι) (sameObject : Bool) (cache : ResidentWeightCache ι) :
    Except PyError (Int × ResidentWeightCache ι) := do
  let (previousIds, total) := (cache.totals.get? view).getD (∅, 0)
  if sameObject ∧ previousIds = blockIds then
    return (total, cache)
  else
    let gone ← sumWeights cache.weights (previousIds \ blockIds)
    let (weights, total, missingBlock) := addWeights weight blocks
      ((blockIds \ previousIds).sort (· ≤ ·)) cache.weights (total - gone) false
    let totals := if missingBlock then cache.totals.erase view
      else cache.totals.set view (blockIds, total)
    return (total, { cache with totals := totals, weights := weights })

/-- `_prefix_resident_weight_for_ids`. -/
def prefixResidentWeightForIds (weight : π → Int) (blockIds : Finset ι) (view : String)
    (sameObject : Bool) : PyM (WeightState ι π) Int := do
  let removedIds ← PyM.zoom (·.index) (fun index s => { s with index := index })
    takeRemovedBlockIdsForCapacity
  let s ← PyM.get
  let cache ← PyM.lift (refreshCache s removedIds)
  PyM.modify fun s => { s with cache := some cache }
  let (total, cache) ← PyM.lift (updateView weight s.index.blocks view blockIds sameObject cache)
  PyM.modify fun s => { s with cache := some cache }
  return total

section

variable {weights : Dict ι Int} {ids : Finset ι}

/-- The remembered weight of `id`. -/
def weightAt (weights : Dict ι Int) (id : ι) : Int := (weights.get? id).getD 0

theorem sumWeights_eq (h : ∀ id ∈ ids, id ∈ weights.keySet) :
    sumWeights weights ids = .ok (∑ id ∈ ids, weightAt weights id) := by
  have key : ∀ (l : List ι) (n : Int), (∀ id ∈ l, id ∈ weights.keySet) →
      l.foldlM (fun total id => do
        let weight ← RadixPrefixIndex.entry weights id
        return total + weight) n = .ok (n + (l.map (weightAt weights)).sum) := by
    intro l
    induction l with
    | nil => intro n _; simp; rfl
    | cons id l ih =>
      intro n hl
      obtain ⟨w, hw⟩ := mem_keySet.mp (hl id List.mem_cons_self)
      rw [List.foldlM_cons]
      simp only [entry_of_get hw]
      rw [show (Except.ok w >>= fun weight => (pure (n + weight) : Except PyError Int)) =
        .ok (n + w) from rfl]
      refine (ih (n + w) fun x hx => hl x (List.mem_cons_of_mem _ hx)).trans ?_
      have hat : weightAt weights id = w := by simp [weightAt, hw]
      rw [List.map_cons, List.sum_cons, hat, add_assoc]
  rw [sumWeights, key _ 0 (fun id hid => h id ((Finset.mem_sort _).mp hid)), zero_add]
  rw [← List.sum_toFinset _ (Finset.sort_nodup _ _), Finset.sort_toFinset]

def ViewOk (weights : Dict ι Int) (v : Finset ι × Int) : Prop :=
  (∀ id ∈ v.1, id ∈ weights.keySet) ∧ v.2 = ∑ id ∈ v.1, weightAt weights id

theorem ViewOk.sdiff {blockIds removed : Finset ι} {total : Int}
    (h : ViewOk weights (blockIds, total)) (hsub : removed ⊆ blockIds) :
    ViewOk weights (blockIds \ removed, total - ∑ id ∈ removed, weightAt weights id) := by
  refine ⟨fun id hid => h.1 id (mem_sdiff.mp hid).1, ?_⟩
  have := sum_sdiff hsub (f := weightAt weights)
  have ht := h.2
  simp only at ht ⊢
  omega

theorem ViewOk.congr {weights' : Dict ι Int} {v : Finset ι × Int} (h : ViewOk weights v)
    (hw : ∀ id ∈ v.1, weights'.get? id = weights.get? id) : ViewOk weights' v := by
  refine ⟨fun id hid => ?_, h.2.trans (sum_congr rfl fun id hid => ?_)⟩
  · obtain ⟨w, hget⟩ := mem_keySet.mp (h.1 id hid)
    exact mem_keySet.mpr ⟨w, (hw id hid).trans hget⟩
  · rw [weightAt, weightAt, hw id hid]

theorem discardTotals_spec (weights : Dict ι Int) (removedIds : Finset ι) :
    ∀ (views : List (String × Finset ι × Int)) (totals : Dict String (Finset ι × Int)),
      (views.map Prod.fst).Nodup → (∀ e ∈ views, ViewOk weights e.2) →
      (∀ view v, totals.get? view = some v → ViewOk weights v ∧
        ((view, v) ∈ views ∨ Disjoint v.1 removedIds)) →
      ∃ totals', discardTotals weights removedIds views totals = .ok totals' ∧
        ∀ view v, totals'.get? view = some v → ViewOk weights v ∧ Disjoint v.1 removedIds := by
  intro views
  induction views with
  | nil =>
    intro totals _ _ hinv
    refine ⟨totals, rfl, fun view v hv => ⟨(hinv view v hv).1, ?_⟩⟩
    exact (hinv view v hv).2.resolve_left (by simp)
  | cons e views ih =>
    intro totals hnd hok hinv
    obtain ⟨view, blockIds, total⟩ := e
    rw [List.map_cons, List.nodup_cons] at hnd
    have hhead : ViewOk weights (blockIds, total) := hok _ List.mem_cons_self
    have htail : ∀ e ∈ views, ViewOk weights e.2 := fun e he => hok e (List.mem_cons_of_mem _ he)
    simp only [discardTotals]
    split
    · next hno =>
      refine ih totals hnd.2 htail fun x v hv => ⟨(hinv x v hv).1, ?_⟩
      rcases (hinv x v hv).2 with hx | hx
      · rcases List.mem_cons.mp hx with hx | hx
        · cases hx
          exact Or.inr (disjoint_iff_inter_eq_empty.mpr hno)
        · exact Or.inl hx
      · exact Or.inr hx
    · rw [sumWeights_eq fun id hid => hhead.1 id (mem_inter.mp hid).1]
      refine ih _ hnd.2 htail fun x v hv => ?_
      rw [get?_set] at hv
      split at hv
      · cases hv
        refine ⟨hhead.sdiff inter_subset_left, Or.inr ?_⟩
        rw [sdiff_inter_self_left]
        exact sdiff_disjoint
      · next hne =>
        refine ⟨(hinv x v hv).1, ?_⟩
        rcases (hinv x v hv).2 with hx | hx
        · rcases List.mem_cons.mp hx with hx | hx
          · cases hx
            exact absurd rfl hne
          · exact Or.inl hx
        · exact Or.inr hx

theorem get?_eraseAll (l : List ι) (d : Dict ι Int) (id : ι) :
    (l.foldl (fun d id => d.erase id) d).get? id = if id ∈ l then none else d.get? id := by
  induction l generalizing d with
  | nil => simp
  | cons x l ih =>
    rw [List.foldl_cons, ih, get?_erase]
    by_cases hx : id = x
    · subst hx; simp
    · simp [hx]

end

section

variable {weight : π → Int} {blocks : Dict ι (PrefixCacheBlock ι π)} {cache : ResidentWeightCache ι}

def ViewsOk (cache : ResidentWeightCache ι) : Prop :=
  ∀ view v, cache.totals.get? view = some v → ViewOk cache.weights v

/-- The remembered weights of the ids outside `removed` are those of the indexed blocks. -/
def WeightsOk (weight : π → Int) (blocks : Dict ι (PrefixCacheBlock ι π)) (removed : Finset ι)
    (weights : Dict ι Int) : Prop :=
  ∀ id w, weights.get? id = some w → id ∈ removed ∨
    ∃ b, blocks.get? id = some b ∧ w = blockWeight weight b

/-- The weight of `id` in the index. -/
def residentWeight (weight : π → Int) (blocks : Dict ι (PrefixCacheBlock ι π)) (id : ι) : Int :=
  match blocks.get? id with
  | none => 0
  | some b => blockWeight weight b

theorem weightAt_eq {weights : Dict ι Int} (h : WeightsOk weight blocks ∅ weights) {id : ι}
    (hid : id ∈ weights.keySet) : weightAt weights id = residentWeight weight blocks id := by
  obtain ⟨w, hw⟩ := mem_keySet.mp hid
  rcases h id w hw with h1 | ⟨b, hb, rfl⟩
  · simp at h1
  · simp [weightAt, hw, residentWeight, hb]

theorem discard_spec {removed : Finset ι} (hviews : ViewsOk cache)
    (hw : WeightsOk weight blocks removed cache.weights) :
    ∃ cache', cache.discard removed = .ok cache' ∧ cache'.index = cache.index ∧
      cache'.payloadEpoch = cache.payloadEpoch ∧ ViewsOk cache' ∧
      WeightsOk weight blocks ∅ cache'.weights := by
  obtain ⟨totals, hrun, htot⟩ := discardTotals_spec cache.weights removed
    cache.totals.entries cache.totals cache.totals.nodup
    (fun e he => hviews e.1 e.2 (mem_entries.mp he))
    (fun view v hv => ⟨hviews view v hv, Or.inl (mem_entries.mpr hv)⟩)
  refine ⟨{ cache with
      totals := totals
      weights := (removed.sort (· ≤ ·)).foldl (fun d id => d.erase id) cache.weights },
    by simp only [discard, hrun]; rfl, rfl, rfl, fun view v hv => ?_, fun id w hid => ?_⟩
  · obtain ⟨hok, hdis⟩ := htot view v hv
    refine hok.congr fun id hid => ?_
    rw [get?_eraseAll, if_neg]
    rw [Finset.mem_sort]
    exact disjoint_left.mp hdis hid
  · rw [get?_eraseAll] at hid
    split at hid
    · cases hid
    · next hno =>
      rw [Finset.mem_sort] at hno
      exact Or.inr ((hw id w hid).resolve_left hno)

theorem addWeights_spec (weight : π → Int) (blocks : Dict ι (PrefixCacheBlock ι π)) : ∀ (ids : List ι) (weights : Dict ι Int) (total : Int) (missing : Bool),
    WeightsOk weight blocks ∅ weights →
    ∃ weights' missing', addWeights weight blocks ids weights total missing =
        (weights', total + (ids.map (residentWeight weight blocks)).sum, missing') ∧
      WeightsOk weight blocks ∅ weights' ∧
      (∀ id w, weights.get? id = some w → weights'.get? id = some w) ∧
      (missing' = false → missing = false ∧ ∀ id ∈ ids, id ∈ weights'.keySet) := by
  intro ids
  induction ids with
  | nil =>
    intro weights total missing hw
    exact ⟨weights, missing, by simp [addWeights], hw, fun _ _ h => h, fun h => ⟨h, by simp⟩⟩
  | cons id ids ih =>
    intro weights total missing hw
    rw [List.map_cons, List.sum_cons, ← add_assoc]
    cases hget : weights.get? id with
    | some w =>
      have hres : residentWeight weight blocks id = w := by
        rw [← weightAt_eq hw (mem_keySet.mpr ⟨w, hget⟩)]
        simp [weightAt, hget]
      obtain ⟨weights', missing', hrun, hw', hkeep, hmiss⟩ := ih weights (total + w) missing hw
      refine ⟨weights', missing', by simp only [addWeights, hget, hrun, hres], hw', hkeep,
        fun hm => ⟨(hmiss hm).1, fun x hx => ?_⟩⟩
      rcases List.mem_cons.mp hx with rfl | hx
      · exact mem_keySet.mpr ⟨w, hkeep _ w hget⟩
      · exact (hmiss hm).2 x hx
    | none =>
      cases hb : blocks.get? id with
      | none =>
        obtain ⟨weights', missing', hrun, hw', hkeep, hmiss⟩ := ih weights total true hw
        have hres : residentWeight weight blocks id = 0 := by simp [residentWeight, hb]
        refine ⟨weights', missing', by simp only [addWeights, hget, hb, hrun, hres, add_zero], hw',
          hkeep, fun hm => ?_⟩
        cases (hmiss hm).1
      | some b =>
        have hres : residentWeight weight blocks id = blockWeight weight b := by
          simp [residentWeight, hb]
        have hset : WeightsOk weight blocks ∅ (weights.set id (blockWeight weight b)) := by
          intro x w hx
          rw [get?_set] at hx
          split at hx
          · next hxi => cases hx; exact Or.inr ⟨b, hxi ▸ hb, rfl⟩
          · exact hw x w hx
        obtain ⟨weights', missing', hrun, hw', hkeep, hmiss⟩ :=
          ih _ (total + blockWeight weight b) missing hset
        refine ⟨weights', missing', by simp only [addWeights, hget, hb, hrun, hres], hw',
          fun x w hx => hkeep x w ?_, fun hm => ⟨(hmiss hm).1, fun x hx => ?_⟩⟩
        · rw [get?_set_ne _ _ (by rintro rfl; rw [hget] at hx; cases hx)]
          exact hx
        · rcases List.mem_cons.mp hx with rfl | hx
          · exact mem_keySet.mpr ⟨_, hkeep _ _ (get?_set_self _ _ _)⟩
          · exact (hmiss hm).2 x hx

theorem ViewOk.mono {weights weights' : Dict ι Int} {v : Finset ι × Int} (h : ViewOk weights v)
    (hkeep : ∀ id w, weights.get? id = some w → weights'.get? id = some w) : ViewOk weights' v := by
  refine h.congr fun id hid => ?_
  obtain ⟨w, hw⟩ := mem_keySet.mp (h.1 id hid)
  rw [hw, hkeep id w hw]

theorem updateView_spec (hviews : ViewsOk cache) (hw : WeightsOk weight blocks ∅ cache.weights)
    (view : String) (blockIds : Finset ι) (sameObject : Bool) :
    ∃ cache', updateView weight blocks view blockIds sameObject cache =
        .ok (∑ id ∈ blockIds, residentWeight weight blocks id, cache') ∧
      cache'.index = cache.index ∧ cache'.payloadEpoch = cache.payloadEpoch ∧ ViewsOk cache' ∧
      WeightsOk weight blocks ∅ cache'.weights := by
  obtain ⟨previousIds, total, hprev⟩ : ∃ P n, (cache.totals.get? view).getD (∅, 0) = (P, n) :=
    ⟨_, _, rfl⟩
  have hok : ViewOk cache.weights (previousIds, total) := by
    rw [← hprev]
    cases hv : cache.totals.get? view with
    | none => exact ⟨by simp, by simp⟩
    | some v => exact hviews view v hv
  have hsum : ∀ ids ⊆ previousIds, ∑ id ∈ ids, weightAt cache.weights id =
      ∑ id ∈ ids, residentWeight weight blocks id := fun ids hsub =>
    sum_congr rfl fun id hid => weightAt_eq hw (hok.1 id (hsub hid))
  have htot : total = ∑ id ∈ previousIds, weightAt cache.weights id := hok.2
  simp only [updateView, hprev]
  split
  · next hsame =>
    refine ⟨cache, ?_, rfl, rfl, hviews, hw⟩
    rw [← hsame.2, ← hsum _ subset_rfl, ← htot]
    rfl
  · rw [sumWeights_eq fun id hid => hok.1 id (mem_sdiff.mp hid).1]
    obtain ⟨weights', missing, hrun, hw', hkeep, hmiss⟩ := addWeights_spec weight blocks
      ((blockIds \ previousIds).sort (· ≤ ·)) cache.weights
      (total - ∑ id ∈ previousIds \ blockIds, weightAt cache.weights id) false hw
    -- What left the view is subtracted, what joined it is added.
    have htotal : total - ∑ id ∈ previousIds \ blockIds, weightAt cache.weights id +
        (((blockIds \ previousIds).sort (· ≤ ·)).map (residentWeight weight blocks)).sum =
          ∑ id ∈ blockIds, residentWeight weight blocks id := by
      rw [← List.sum_toFinset _ (Finset.sort_nodup _ _), Finset.sort_toFinset,
        hsum _ sdiff_subset, htot, hsum _ subset_rfl]
      have h1 := sum_inter_add_sum_sdiff previousIds blockIds (residentWeight weight blocks)
      have h2 := sum_inter_add_sum_sdiff blockIds previousIds (residentWeight weight blocks)
      rw [inter_comm] at h2
      linarith
    refine ⟨{ cache with
        totals := if missing then cache.totals.erase view else cache.totals.set view
          (blockIds, ∑ id ∈ blockIds, residentWeight weight blocks id)
        weights := weights' }, ?_, rfl, rfl, fun x v hv => ?_, hw'⟩
    · simp only [bind, Except.bind, hrun, htotal]
      rfl
    cases missing with
    | true =>
      rw [if_pos rfl, get?_erase] at hv
      split at hv
      · cases hv
      · exact (hviews x v hv).mono hkeep
    | false =>
      rw [if_neg (by simp), get?_set] at hv
      split at hv
      · cases hv
        have hin : ∀ id ∈ blockIds, id ∈ weights'.keySet := by
          intro id hid
          by_cases hp : id ∈ previousIds
          · obtain ⟨w, hget⟩ := mem_keySet.mp (hok.1 id hp)
            exact mem_keySet.mpr ⟨w, hkeep id w hget⟩
          · exact (hmiss rfl).2 id ((Finset.mem_sort _).mpr (mem_sdiff.mpr ⟨hid, hp⟩))
        exact ⟨hin, sum_congr rfl fun id hid => (weightAt_eq hw' (hin id hid)).symm⟩
      · exact (hviews x v hv).mono hkeep

end

section

open PyM

variable {weight : π → Int} {s : WeightState ι π}

inductive WeightOp (ι π : Type) where
  | index (op : Op ι π)
  | relocate (id : ι) (payload : π)
  | query (blockIds : Finset ι) (view : String) (sameObject : Bool)
  | reset

def WeightOp.Allowed (weight : π → Int) (s : WeightState ι π) : WeightOp ι π → Prop
  | .index op => op ≠ .takeRemovedBlockIdsForCapacity
  | .relocate id payload => ∀ b, s.index.blocks.get? id = some b → weight payload = weight b.payload
  | .query _ _ _ => True
  | .reset => True

/-- Replace the payload of `id`. -/
def writePayload (id : ι) (payload : π) (index : RadixPrefixIndex ι π) : RadixPrefixIndex ι π :=
  match index.blocks.get? id with
  | none => index
  | some b => { index with blocks := index.blocks.set id { b with payload := payload } }

/-- The state after `op`. -/
def WeightOp.next (cfg : PrefixIndexConfig ι) (weight : π → Int) (s : WeightState ι π) :
    WeightOp ι π → WeightState ι π
  | .index op => { s with index := op.next cfg s.index }
  | .relocate id payload => { s with index := writePayload id payload s.index }
  | .query blockIds view sameObject =>
    (prefixResidentWeightForIds weight blockIds view sameObject s).2
  | .reset => { index := {}, indexId := s.indexId + 1, cache := none }

inductive WeightReachable (cfg : PrefixIndexConfig ι) (weight : π → Int) : WeightState ι π → Prop
  | init : WeightReachable cfg weight {}
  | step {s : WeightState ι π} (op : WeightOp ι π) : WeightReachable cfg weight s →
      op.Allowed weight s → WeightReachable cfg weight (op.next cfg weight s)

/-- At the epoch of the index the cached weights are those of its blocks. -/
structure CacheInv (weight : π → Int) (index : RadixPrefixIndex ι π)
    (cache : ResidentWeightCache ι) : Prop where
  views : ViewsOk cache
  epoch : cache.payloadEpoch ≤ index.epochs.residentPayload
  weights : cache.payloadEpoch = index.epochs.residentPayload →
    ∀ removed, index.removedBlockIdsForCapacity = some removed →
      WeightsOk weight index.blocks removed cache.weights

structure WeightInv (weight : π → Int) (s : WeightState ι π) : Prop where
  wf : WellFormed s.index
  cache : ∀ cache, s.cache = some cache → CacheInv weight s.index cache

variable {index index' : RadixPrefixIndex ι π}

theorem CacheInv.of_blocks {cache : ResidentWeightCache ι} (h : CacheInv weight index cache)
    (hep : index'.epochs.residentPayload = index.epochs.residentPayload)
    (hj : index'.removedBlockIdsForCapacity = index.removedBlockIdsForCapacity)
    (hb : ∀ id b, index.blocks.get? id = some b →
      ∃ b', index'.blocks.get? id = some b' ∧ blockWeight weight b' = blockWeight weight b) :
    CacheInv weight index' cache := by
  refine ⟨h.views, hep ▸ h.epoch, fun he removed hr id w hw => ?_⟩
  rw [hep] at he
  rw [hj] at hr
  rcases h.weights he removed hr id w hw with h1 | ⟨b, hget, rfl⟩
  · exact Or.inl h1
  · obtain ⟨b', hb', hw'⟩ := hb id b hget
    exact Or.inr ⟨b', hb', hw'.symm⟩

theorem CacheInv.of_epoch {cache : ResidentWeightCache ι} (h : CacheInv weight index cache)
    (hep : index.epochs.residentPayload < index'.epochs.residentPayload) :
    CacheInv weight index' cache := by
  have hle := h.epoch
  refine ⟨h.views, hle.trans hep.le, fun he => ?_⟩
  omega

theorem CacheInv.step {cache : ResidentWeightCache ι} (h : CacheInv weight index cache)
    (hstep : Step index index') : CacheInv weight index' cache := by
  cases hstep.change with
  | update hupd _ hle _ hfr =>
    rcases hle.lt_or_eq with hlt | heq
    · exact h.of_epoch hlt
    · refine h.of_blocks heq.symm hfr.journal fun id b hb => ?_
      obtain ⟨n, hn, -, hR⟩ := hupd.get hb
      obtain ⟨hp, hd⟩ := hR.resolve_right (by omega)
      exact ⟨n, hn, by simp only [blockWeight, hp, hd]⟩
  | quiet hupd _ hle _ hfr =>
    rcases hle.lt_or_eq with hlt | heq
    · exact h.of_epoch hlt
    · refine h.of_blocks heq.symm hfr.journal fun id b hb => ?_
      obtain ⟨n, hn, -, hv⟩ := hupd.get hb
      exact ⟨n, hn, by simp only [blockWeight, hv.payload, hv.residency]⟩
  | @remove b hb _ _ hblocks hep hj _ =>
    have hepoch : index'.epochs.residentPayload = index.epochs.residentPayload := by rw [hep]; rfl
    refine ⟨h.views, hepoch ▸ h.epoch, fun he removed hr id w hw => ?_⟩
    rw [hepoch] at he
    rw [hj] at hr
    unfold journalRemoval at hr
    split at hr
    · cases hr
    · next ids hids =>
      split at hr
      · cases hr
      · cases hr
        rcases h.weights he ids hids id w hw with h1 | ⟨c, hc, rfl⟩
        · exact Or.inl (mem_insert_of_mem h1)
        · by_cases hid : id = b.stableBlockId
          · exact Or.inl (hid ▸ mem_insert_self _ _)
          · exact Or.inr ⟨c, by rw [hblocks, get?_erase_ne _ hid]; exact hc, rfl⟩
  | view hblocks hep hj _ =>
    exact h.of_blocks (by rw [hep]) hj fun id b hb => ⟨b, by rw [hblocks]; exact hb, rfl⟩

theorem CacheInv.insert {cache : ResidentWeightCache ι} {b : PrefixCacheBlock ι π}
    (h : CacheInv weight index cache) (hins : InsertStep index b index') :
    CacheInv weight index' cache := by
  have hep : index'.epochs.residentPayload = index.epochs.residentPayload := by
    rw [hins.epochs, IndexEpochs.markInserted]
    split <;> rfl
  refine h.of_blocks hep hins.framed.journal fun id c hc => ⟨c, ?_, rfl⟩
  rw [hins.blocks, get?_set_ne]
  · exact hc
  · rintro rfl
    rw [hins.new] at hc
    cases hc

theorem CacheInv.outcome {cache : ResidentWeightCache ι} {op : Op ι π}
    (h : CacheInv weight index cache) (ho : Outcome index op index')
    (hop : op ≠ .takeRemovedBlockIdsForCapacity) : CacheInv weight index' cache := by
  cases ho with
  | steps hs =>
    induction hs with
    | refl => exact h
    | tail _ hstep ih => exact ih.step hstep
  | insert _ hins => exact h.insert hins
  | taken he _ => exact absurd he hop

theorem wf_writePayload (h : WellFormed index) (id : ι) (payload : π) :
    WellFormed (writePayload id payload index) := by
  unfold writePayload
  split
  · exact h
  · next b hb => exact h.set_same hb ⟨rfl, rfl, rfl, rfl, rfl⟩ (.same h.residency hb rfl) rfl

theorem refreshCache_spec (h : WeightInv weight s) :
    ∃ cache, refreshCache s s.index.removedBlockIdsForCapacity = .ok cache ∧
      cache.index = s.indexId ∧ cache.payloadEpoch = s.index.epochs.residentPayload ∧
      ViewsOk cache ∧ WeightsOk weight s.index.blocks ∅ cache.weights := by
  have hnew : ∃ cache : ResidentWeightCache ι,
      (⟨s.indexId, s.index.epochs.residentPayload, .empty, .empty⟩ : ResidentWeightCache ι) = cache ∧
      cache.index = s.indexId ∧ cache.payloadEpoch = s.index.epochs.residentPayload ∧
      ViewsOk cache ∧ WeightsOk weight s.index.blocks ∅ cache.weights :=
    ⟨_, rfl, rfl, rfl, by simp [ViewsOk], by simp [WeightsOk]⟩
  obtain ⟨fresh, hfresh, hrest⟩ := hnew
  unfold refreshCache
  cases hc : s.cache with
  | none => exact ⟨fresh, by simp only [hfresh], hrest⟩
  | some cache =>
    cases hr : s.index.removedBlockIdsForCapacity with
    | none => exact ⟨fresh, by simp only [hfresh], hrest⟩
    | some removed =>
      have hinv := h.cache cache hc
      simp only
      split
      · exact ⟨fresh, by rw [hfresh], hrest⟩
      · next hsame =>
        rw [not_or, not_not, not_not] at hsame
        have hw := hinv.weights hsame.2 removed hr
        split
        · next hnone => exact ⟨cache, rfl, hsame.1, hsame.2, hinv.views, hnone ▸ hw⟩
        · obtain ⟨cache', hrun, hidx, hep, hviews, hweights⟩ := discard_spec hinv.views hw
          exact ⟨cache', hrun, hidx.trans hsame.1, hep.trans hsame.2, hviews, hweights⟩

theorem prefixResidentWeightForIds_spec (h : WeightInv weight s) (blockIds : Finset ι)
    (view : String) (sameObject : Bool) :
    wp (prefixResidentWeightForIds weight blockIds view sameObject)
      (fun total s' => total = ∑ id ∈ blockIds, residentWeight weight s.index.blocks id ∧
        WeightInv weight s') (fun _ _ => False) s := by
  obtain ⟨cache, hrun, -, hep, hviews, hw⟩ := refreshCache_spec h
  obtain ⟨cache', hrun', -, hep', hviews', hw'⟩ := updateView_spec hviews hw view blockIds sameObject
  -- Taking the journal leaves it empty and changes nothing else.
  have htake : takeRemovedBlockIdsForCapacity s.index = (.ok s.index.removedBlockIdsForCapacity,
      { s.index with removedBlockIdsForCapacity := some ∅ }) := by
    simp only [takeRemovedBlockIdsForCapacity, bind_run, get_run, ite_run, modify_run, pure_run]
    split
    · rfl
    · next hno =>
      have : s.index.removedBlockIdsForCapacity = some ∅ := by simpa using hno
      simp [← this]
  have hrun : refreshCache { s with
      index := { s.index with removedBlockIdsForCapacity := some ∅ } }
      s.index.removedBlockIdsForCapacity = .ok cache := hrun
  simp only [prefixResidentWeightForIds, wp_bind, wp_zoom, wp_of_ok htake, wp_get, wp_lift, hrun,
    wp_modify, hrun', wp_pure]
  refine ⟨trivial, ⟨h.wf.forest, h.wf.ids, h.wf.tree, h.wf.routing, h.wf.tracks, h.wf.residency⟩,
    fun c hc => ?_⟩
  cases hc
  refine ⟨hviews', (hep'.trans hep).le, fun _ removed hr => ?_⟩
  cases hr
  exact hw'

variable {cfg : PrefixIndexConfig ι}

theorem WeightInv.next (h : WeightInv weight s) {op : WeightOp ι π} (hop : op.Allowed weight s) :
    WeightInv weight (op.next cfg weight s) := by
  cases op with
  | index op =>
    have ho : Outcome s.index op (op.next cfg s.index) := run_outcome h.wf op
    exact ⟨ho.wf h.wf, fun c hc => (h.cache c hc).outcome ho hop⟩
  | relocate id payload =>
    refine ⟨wf_writePayload h.wf id payload, fun c hc => ?_⟩
    have hwf := h.cache c hc
    simp only [WeightOp.next, writePayload]
    split
    · exact hwf
    · next b hb =>
      refine hwf.of_blocks rfl rfl fun x c hx => ?_
      by_cases hxid : x = id
      · subst hxid
        rw [hb] at hx
        cases hx
        refine ⟨_, get?_set_self _ _ _, ?_⟩
        simp only [blockWeight, hop b hb]
      · exact ⟨c, by rw [get?_set_ne _ _ hxid]; exact hx, rfl⟩
  | query blockIds view sameObject =>
    exact keeps_iff.mp (wp_mono (prefixResidentWeightForIds_spec h blockIds view sameObject)
      (fun _ _ hs => hs.2) fun _ _ he => he.elim)
  | reset => exact ⟨wf_empty, by simp [WeightOp.next]⟩

theorem WeightReachable.inv (h : WeightReachable cfg weight s) : WeightInv weight s := by
  induction h with
  | init => exact ⟨wf_empty, by simp⟩
  | step op _ hop ih => exact ih.next hop

/-- In every interleaving, a call returns the sum over the ids that are indexed now: the
capacity weight of the device-resident blocks, and nothing for the others. -/
theorem resident_weight_correct {cfg : PrefixIndexConfig ι} (h : WeightReachable cfg weight s)
    (blockIds : Finset ι) (view : String) (sameObject : Bool) :
    (prefixResidentWeightForIds weight blockIds view sameObject s).1 =
      .ok (∑ id ∈ blockIds, match s.index.blocks.get? id with
        | none => 0
        | some b => if b.residency.devicePresent then weight b.payload else 0) := by
  have hspec := prefixResidentWeightForIds_spec h.inv blockIds view sameObject
  unfold wp at hspec
  split at hspec
  · next hm =>
    rw [hm, hspec.1]
    rfl
  · exact hspec.elim

def weightBlock (objectId : Nat) (payload : Int) : PrefixCacheBlock Nat Int where
  objectId := objectId
  stableBlockId := 0
  parentBlockId := none
  logicalBlockIdx := 0
  payload := payload

def weightDemo : List (WeightOp Nat Int) :=
  [.index (.insertBlock (weightBlock 0 3)), .query {0} "all" false,
    .index (.evictUntilWeight 1 fun _ => 1), .index (.insertBlock (weightBlock 1 5))]

theorem weightReachable_foldl {ops : List (WeightOp ι π)} (h : WeightReachable cfg weight s)
    (hops : ∀ op ∈ ops, ∀ s, op.Allowed weight s) :
    WeightReachable cfg weight (ops.foldl (WeightOp.next cfg weight) s) := by
  induction ops generalizing s with
  | nil => exact h
  | cons op ops ih =>
    exact ih (.step op h (hops op List.mem_cons_self s)) fun o ho => hops o (List.mem_cons_of_mem _ ho)

theorem resident_weight_correct_demo :
    (prefixResidentWeightForIds (fun n => n) {0} "all" true
      (weightDemo.foldl (WeightOp.next demoConfig fun n => n) {})).1 = .ok 5 := by
  have hreach : WeightReachable demoConfig (fun n => n)
      (weightDemo.foldl (WeightOp.next demoConfig fun n => n) {}) := by
    refine weightReachable_foldl .init fun op hop s => ?_
    simp only [weightDemo, List.mem_cons, List.not_mem_nil, or_false] at hop
    rcases hop with rfl | rfl | rfl | rfl <;> simp [WeightOp.Allowed]
  rw [resident_weight_correct hreach, Finset.sum_singleton]
  decide +kernel

end

end ResidentWeightCache

end SparseEngine
