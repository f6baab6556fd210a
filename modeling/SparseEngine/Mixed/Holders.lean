import SparseEngine.Mixed.Capacity
import SparseEngine.PrefixCache.References

/-! Evictions and demotions only touch blocks that nothing references. -/

namespace SparseEngine

open PyM

namespace RadixPrefixIndex

variable {ι π : Type} [LinearOrder ι]

/-- The blocks of `s'` are blocks of `s` with the same reference counts, and a referenced
block was neither evicted nor demoted. -/
structure Loyal (s s' : RadixPrefixIndex ι π) : Prop where
  wf : WellFormed s'
  back : ∀ id n, s'.blocks.get? id = some n → ∃ o, s.blocks.get? id = some o ∧
    SameIdentity o n ∧ n.refCount = o.refCount
  kept : ∀ id o, s.blocks.get? id = some o → 0 < o.refCount → ∃ n, s'.blocks.get? id = some n ∧
    (o.residency.devicePresent = true → n.residency.devicePresent = true)

/-- From a well-formed index without negative counts, `Loyal`. -/
def IndexLoyal (s s' : RadixPrefixIndex ι π) : Prop :=
  WellFormed s → RefsNonneg s → Loyal s s'

variable {s s' s'' : RadixPrefixIndex ι π}

theorem Loyal.refl (h : WellFormed s) : Loyal s s :=
  ⟨h, fun _ n hn => ⟨n, hn, .refl n, rfl⟩, fun _ o ho _ => ⟨o, ho, fun hd => hd⟩⟩

theorem Loyal.nonneg (h : Loyal s s') (hnn : RefsNonneg s) : RefsNonneg s' := by
  intro id n hn
  obtain ⟨o, ho, -, href⟩ := h.back id n hn
  rw [href]
  exact hnn id o ho

theorem Loyal.get (h : Loyal s s') {id : ι} {o : PrefixCacheBlock ι π}
    (ho : s.blocks.get? id = some o) (hr : 0 < o.refCount) :
    ∃ n, s'.blocks.get? id = some n ∧ SameIdentity o n ∧ n.refCount = o.refCount ∧
      (o.residency.devicePresent = true → n.residency.devicePresent = true) := by
  obtain ⟨n, hn, hd⟩ := h.kept id o ho hr
  obtain ⟨o', ho', hid, href⟩ := h.back id n hn
  rw [ho] at ho'
  cases ho'
  exact ⟨n, hn, hid, href, hd⟩

theorem Loyal.trans (h : Loyal s s') (h' : Loyal s' s'') : Loyal s s'' where
  wf := h'.wf
  back := fun id n hn => by
    obtain ⟨m, hm, hid', href'⟩ := h'.back id n hn
    obtain ⟨o, ho, hid, href⟩ := h.back id m hm
    exact ⟨o, ho, hid.trans hid', href'.trans href⟩
  kept := fun id o ho hr => by
    obtain ⟨m, hm, -, href, hd⟩ := h.get ho hr
    obtain ⟨n, hn, hd'⟩ := h'.kept id m hm (by rw [href]; exact hr)
    exact ⟨n, hn, fun hdev => hd' (hd hdev)⟩

theorem Drift.loyal (h : Drift 0 s s') : Loyal s s' where
  wf := h.wf
  back := fun id n hn => by
    obtain ⟨o, ho, hid, href⟩ := h.back id n hn
    exact ⟨o, ho, hid, by simpa using href⟩
  kept := fun id o ho hr => h.kept id o ho hr (by simpa using hr)

theorem Loyal.of_set (hwf : WellFormed s') {id : ι} {o n : PrefixCacheBlock ι π}
    (ho : s.blocks.get? id = some o) (hs' : s'.blocks = s.blocks.set id n) (hid : SameIdentity o n)
    (href : n.refCount = o.refCount)
    (hd : o.residency.devicePresent = true → n.residency.devicePresent = true) : Loyal s s' where
  wf := hwf
  back := fun x m hm => by
    rw [hs', Dict.get?_set] at hm
    split at hm
    · next hx =>
      cases hm
      exact ⟨o, hx ▸ ho, hid, href⟩
    · exact ⟨m, hm, .refl m, rfl⟩
  kept := fun x p hp _ => by
    rw [hs', Dict.get?_set]
    split
    · next hx =>
      subst hx
      rw [ho] at hp
      cases hp
      exact ⟨n, rfl, hd⟩
    · exact ⟨p, hp, fun h => h⟩

theorem Loyal.of_blocks (hwf : WellFormed s') (h : s'.blocks = s.blocks) : Loyal s s' :=
  ⟨hwf, fun _ n hn => ⟨n, h ▸ hn, .refl n, rfl⟩, fun _ o ho _ => ⟨o, h ▸ ho, fun hd => hd⟩⟩

section

variable {b : PrefixCacheBlock ι π}

theorem Recast.loyal (hwf : WellFormed s) {r : PrefixBlockResidency → PrefixBlockResidency}
    (h : Recast s b r s')
    (hr : ∀ x, x.devicePresent = true → (r x).devicePresent = true) : Loyal s s' := by
  have hwf' := h.steps.wf hwf
  rcases h.blocks with ⟨c, hc, -, hs'⟩ | ⟨-, hs'⟩
  · exact .of_set hwf' hc hs' ⟨rfl, rfl, rfl, rfl, rfl⟩ rfl (hr _)
  · exact .of_blocks hwf' hs'

theorem loyal_of_recast {α : Type} {m : IndexM ι π α}
    {r : PrefixBlockResidency → PrefixBlockResidency} {P : RadixPrefixIndex ι π → Prop}
    (h : ∀ s, WellFormed s →
      wp m (fun _ s' => Recast s b r s' ∧ P s) (fun _ s' => Unchanged s s') s)
    (hr : ∀ x, x.devicePresent = true → (r x).devicePresent = true) : Along IndexLoyal m := by
  intro s hwf _
  have hkeep : Keeps (Loyal s) m s :=
    wp_mono (h s hwf) (fun _ _ hs => hs.1.loyal hwf hr)
      fun _ _ hs => .of_blocks (hs.1.wf hwf) hs.2
  exact keeps_iff.mp hkeep

theorem beginD2h_loyal (b : PrefixCacheBlock ι π) : Along IndexLoyal (beginD2h b) :=
  loyal_of_recast (fun _ hwf => beginD2h_spec hwf b) fun _ h => h

theorem finishD2h_loyal (b : PrefixCacheBlock ι π) : Along IndexLoyal (finishD2h b) :=
  loyal_of_recast (fun _ hwf => finishD2h_spec hwf b) fun _ h => h

theorem abortD2h_loyal (b : PrefixCacheBlock ι π) : Along IndexLoyal (abortD2h b) :=
  loyal_of_recast (fun _ hwf => abortD2h_spec hwf b) fun _ h => h

theorem finishH2d_loyal (b : PrefixCacheBlock ι π) : Along IndexLoyal (finishH2d b) :=
  loyal_of_recast (fun _ hwf => finishH2d_spec hwf b) fun _ h => h

theorem evictUntilWeight_loyal (needed : Int) (weight : PrefixCacheBlock ι π → Int) :
    Along IndexLoyal (evictUntilWeight needed weight) := by
  intro s hwf hnn
  have hkeep : Keeps (Loyal s) (evictUntilWeight needed weight) s :=
    wp_mono (evictUntilWeight_spec hwf needed weight) (fun _ _ h => (h.removals.drift hwf hnn).loyal)
      fun _ _ h => by
        obtain ⟨⟨bs, hrem⟩, -⟩ := h
        exact (hrem.drift hwf hnn).loyal
  exact keeps_iff.mp hkeep

theorem evictHostUntilWeight_loyal (needed : Int) (weight : PrefixCacheBlock ι π → Int) :
    Along IndexLoyal (evictHostUntilWeight needed weight) := by
  intro s hwf hnn
  have hkeep : Keeps (Loyal s) (evictHostUntilWeight needed weight) s :=
    wp_mono (evictHostUntilWeight_spec hwf needed weight)
      (fun _ _ h => (h.removals.drift hwf hnn).loyal) fun _ _ h => by
        obtain ⟨⟨bs, hrem⟩, -⟩ := h
        exact (hrem.drift hwf hnn).loyal
  exact keeps_iff.mp hkeep

theorem demoteDeviceUntilWeight_loyal (needed : Int) (weight : PrefixCacheBlock ι π → Int) :
    Along IndexLoyal (demoteDeviceUntilWeight needed weight) := by
  intro s hwf hnn
  have hkeep : Keeps (Loyal s) (demoteDeviceUntilWeight needed weight) s :=
    wp_mono (demoteDeviceUntilWeight_spec hwf needed weight) (fun _ _ h => by
        obtain ⟨bs, -, hres⟩ := h
        exact (hres.demotions.drift hwf hnn).loyal) fun _ _ h => by
        obtain ⟨-, ⟨bs, hdem⟩, -⟩ := h
        exact (hdem.drift hwf hnn).loyal
  exact keeps_iff.mp hkeep

end

end RadixPrefixIndex

namespace PrefixCacheCoordinator

open RadixPrefixIndex

variable {ι κ μ : Type} [LinearOrder ι]

structure SequenceTables (ι κ : Type) where
  prefixBlocks : Dict Nat (List (MixedBlock ι κ))
  materializedBlocks : Dict Nat (Dict ι (MixedBlock ι κ))
  runtimeStates : Dict Nat (MixedPrefixRuntimeState ι)
  pendingBlocks : Dict Nat (List (PendingMixedPrefixBlock ι κ))
  pendingDuplicateRefs : Dict Nat (List ι)
  pendingBlockIds : Finset ι
  capacityLimitedSeqIds : Finset Nat
  nextObjectId : Nat

def tables (c : PrefixCacheCoordinator ι κ μ) : SequenceTables ι κ :=
  { prefixBlocks := c.seqIdToPrefixBlocks
    materializedBlocks := c.seqIdToMaterializedBlocks
    runtimeStates := c.runtimeStates
    pendingBlocks := c.pendingBlocks
    pendingDuplicateRefs := c.pendingDuplicateRefs
    pendingBlockIds := c.pendingBlockIds
    capacityLimitedSeqIds := c.capacityLimitedSeqIds
    nextObjectId := c.nextObjectId }

structure Kept (c c' : PrefixCacheCoordinator ι κ μ) : Prop where
  index : Loyal c.prefixCache c'.prefixCache
  tables : tables c' = tables c

/-- From a well-formed index without negative counts, `Kept`. -/
def Steady (c c' : PrefixCacheCoordinator ι κ μ) : Prop :=
  WellFormed c.prefixCache → RefsNonneg c.prefixCache → Kept c c'

theorem Kept.trans {c c' c'' : PrefixCacheCoordinator ι κ μ} (h : Kept c c') (h' : Kept c' c'') :
    Kept c c'' := ⟨h.index.trans h'.index, h'.tables.trans h.tables⟩

instance : Std.Refl (@Steady ι κ μ _) := ⟨fun _ h _ => ⟨.refl h, rfl⟩⟩

instance : IsTrans (PrefixCacheCoordinator ι κ μ) Steady :=
  ⟨fun _ _ _ h h' hwf hnn =>
    (h hwf hnn).trans (h' (h hwf hnn).index.wf ((h hwf hnn).index.nonneg hnn))⟩

section

variable {α : Type} {cfg : CoordinatorConfig ι κ μ}

theorem steady_onIndex {m : IndexM ι (MixedPrefixBlockPayload κ) α} (h : Along IndexLoyal m) :
    Along (@Steady ι κ μ _) (onIndex m) :=
  along_zoom h fun _ _ hR hwf hnn => ⟨hR hwf hnn, rfl⟩

theorem steady_modify {f : PrefixCacheCoordinator ι κ μ → PrefixCacheCoordinator ι κ μ}
    (hindex : ∀ c, (f c).prefixCache = c.prefixCache) (htables : ∀ c, tables (f c) = tables c) :
    Along Steady (PyM.modify f) := by
  intro c hwf _
  refine ⟨?_, htables c⟩
  show Loyal c.prefixCache (f c).prefixCache
  rw [hindex]
  exact .refl hwf

theorem payload_loyal (b : MixedBlock ι κ)
    (f : MixedPrefixBlockPayload κ → MixedPrefixBlockPayload κ) :
    Along IndexLoyal (PyM.modify fun s : RadixPrefixIndex ι (MixedPrefixBlockPayload κ) =>
      s.assign { s.deref b with payload := f (s.deref b).payload }) := by
  refine along_modify fun s hwf _ => ?_
  cases hi : s.isIndexed b with
  | false =>
    rw [deref_of_not_indexed hi, assign_of_not_indexed (by rw [← hi]; rfl)]
    exact .refl hwf
  | true =>
    obtain ⟨c, hc, ho⟩ := isIndexed_iff.mp hi
    have hsame : SameIdentity c { c with payload := f c.payload } := ⟨rfl, rfl, rfl, rfl, rfl⟩
    rw [deref_of_indexed hc ho, hwf.assign_eq hc hsame]
    exact .of_set (hwf.set_same hc hsame (.same hwf.residency hc rfl) rfl) hc rfl hsame rfl
      fun h => h

theorem tolerates_steady : Tolerates (@Steady ι κ μ _) where
  managers := fun _ => along_zoom (R := fun _ _ => True) (fun _ => trivial) fun _ _ _ hwf _ =>
    ⟨.refl hwf, rfl⟩
  offload := fun _ => steady_modify (fun _ => rfl) fun _ => rfl
  payload := fun b f _ => steady_onIndex (payload_loyal b f)
  beginD2h := fun b => steady_onIndex (beginD2h_loyal b)
  finishD2h := fun b => steady_onIndex (finishD2h_loyal b)
  abortD2h := fun b => steady_onIndex (abortD2h_loyal b)
  finishH2d := fun b => steady_onIndex (finishH2d_loyal b)

theorem releasing_steady {m : CoordM ι κ μ Unit} (hm : Along Steady m) :
    Along Steady (releasing m) :=
  along_tryExcept hm fun e =>
    along_bind (steady_modify (fun _ => rfl) fun _ => rfl) fun _ => along_raise e

theorem freePrefixRecurrentPayload_steady (payload : RecurrentPrefixPayload) :
    Along (@Steady ι κ μ _) (freePrefixRecurrentPayload payload) :=
  steady_modify (fun _ => rfl) fun _ => rfl

theorem patchRecurrentBytes_steady (bs : List (MixedBlock ι κ)) :
    Along (@Steady ι κ μ _) (patchRecurrentBytes bs) := by
  refine steady_modify (fun c => ?_) fun c => ?_
  · exact patched_prefixCache bs c
  · show tables (patched bs c) = tables c
    unfold patched patchRecurrentBytes
    simp only [modify_run]
    split
    · rfl
    · split <;> rfl

theorem freeBlocks_steady (bs : List (MixedBlock ι κ)) : Along Steady (freeBlocks cfg bs) := by
  unfold freeBlocks
  refine along_bind (steady_modify (fun _ => rfl) fun _ => rfl) fun _ => ?_
  refine along_bind (patchRecurrentBytes_steady bs) fun _ => ?_
  split
  · refine along_bind (along_forEach fun b _ => along_bind along_get fun c => ?_) fun _ =>
      along_bind along_get fun c => ?_
    · dsimp only
      split
      · exact along_bind (releasing_steady (tolerates_steady.freeDeviceBlock b)) fun _ =>
          freePrefixRecurrentPayload_steady _
      · exact freePrefixRecurrentPayload_steady _
    · dsimp only
      split
      · exact along_pure _
      · exact releasing_steady (tolerates_steady.freeHostPayloads _)
  · exact along_forEach fun b _ => along_bind
      (releasing_steady (tolerates_steady.managers _)) fun _ => freePrefixRecurrentPayload_steady _

/-! ### Making room -/

variable (needed : Int)

variable (weight : MixedBlock ι κ → Int)

theorem evictHost_steady :
    Along Steady (evictHost cfg needed weight) :=
  along_bind (steady_onIndex (evictHostUntilWeight_loyal needed weight)) fun bs =>
    along_bind (freeBlocks_steady bs) fun _ => along_pure _

theorem demote_steady {β : Type}
    {k : List (MixedBlock ι κ) → CoordM ι κ μ β} (hk : ∀ bs, Along Steady (k bs)) :
    Along Steady (do
      let demoted ← onIndex (demoteDeviceUntilWeight needed weight)
      PyM.forEach (freeDeviceBlock cfg) demoted
      k demoted) :=
  along_bind (steady_onIndex (demoteDeviceUntilWeight_loyal needed weight)) fun bs =>
    along_bind (along_forEach fun b _ => tolerates_steady.freeDeviceBlock b) fun _ => hk bs

theorem evictHostLoop_steady (needed : Int) (weight : MixedBlock ι κ → Int) :
    ∀ (fuel : Nat) (freed : Int), Along Steady (evictHostLoop cfg needed weight fuel freed)
  | 0, _ => along_raise _
  | fuel + 1, freed => by
    unfold evictHostLoop
    split
    · exact along_pure _
    · refine along_bind tolerates_steady.pollOffload fun _ => ?_
      refine along_bind (evictHost_steady _ weight) fun host => ?_
      dsimp only
      split
      · exact along_pure _
      · refine demote_steady _ weight fun _ => along_bind (evictHost_steady _ weight) fun newly => ?_
        split
        · exact along_pure _
        · refine along_bind tolerates_steady.waitOldestD2h fun waited => ?_
          split
          · exact evictHostLoop_steady needed weight fuel _
          · exact along_pure _

theorem evictHostBlocks_steady (blocks bytes : Int) :
    Along Steady (evictHostBlocks cfg blocks bytes) := by
  unfold evictHostBlocks
  refine along_bind (along_raiseIf _ _) fun _ => along_bind along_get fun c => ?_
  dsimp only
  split
  · exact evictHostLoop_steady _ _ _ _
  · exact evictHostLoop_steady _ _ _ _

theorem evictLeaves_steady {β : Type}
    {k : List (MixedBlock ι κ) → CoordM ι κ μ β} (hk : ∀ bs, Along Steady (k bs)) :
    Along Steady (do
      let evicted ← onIndex (evictUntilWeight needed weight)
      freeBlocks cfg evicted
      k evicted) :=
  along_bind (steady_onIndex (evictUntilWeight_loyal needed weight)) fun bs =>
    along_bind (freeBlocks_steady bs) fun _ => hk bs

theorem evictForBlocks_steady : Along Steady (evictForBlocks cfg needed) := by
  unfold evictForBlocks
  split
  · exact along_pure _
  · refine along_bind along_get fun c => ?_
    dsimp only
    split
    · exact along_pure _
    · split
      · exact evictHostBlocks_steady _ _
      · exact evictLeaves_steady _ _ fun _ => along_pure _

theorem liveRecurrentBytes_steady : Along (@Steady ι κ μ _) liveRecurrentBytes := by
  unfold liveRecurrentBytes
  refine along_bind along_get fun c => ?_
  dsimp only
  split
  · exact along_bind (steady_modify (fun _ => rfl) fun _ => rfl) fun _ => along_pure _
  · split
    · exact along_pure _
    · exact along_bind (steady_modify (fun _ => rfl) fun _ => rfl) fun _ => along_pure _

theorem evictForInsert_steady (needed incoming : Int) :
    Along Steady (evictForInsert cfg needed incoming) := by
  unfold evictForInsert
  refine along_bind (along_raiseIf _ _) fun _ => along_bind (along_raiseIf _ _) fun _ => ?_
  refine along_bind (evictForBlocks_steady needed) fun room => ?_
  split
  · unfold evictForBytes
    refine along_bind liveRecurrentBytes_steady fun live => along_bind along_get fun c => ?_
    dsimp only
    split
    · exact along_pure _
    · split
      · exact evictHostBlocks_steady _ _
      · exact evictLeaves_steady _ _ fun _ => along_pure _
  · exact along_pure _

theorem demoteForSlots_steady (needed : Nat) : ∀ fuel freed : Nat,
    Along Steady (demoteForSlots cfg needed fuel freed)
  | 0, _ => along_raise _
  | fuel + 1, freed => by
    unfold demoteForSlots
    split
    · exact along_pure _
    · refine along_bind tolerates_steady.pollOffload fun _ => ?_
      refine demote_steady _ _ fun _ => ?_
      dsimp only
      split
      · exact along_pure _
      · refine along_bind tolerates_steady.waitOldestD2h fun waited => ?_
        split
        · exact demoteForSlots_steady needed fuel _
        · exact along_pure _

theorem evictForSlots_steady (neededSlots : Nat) : Along Steady (evictForSlots cfg neededSlots) := by
  unfold evictForSlots
  split
  · exact along_pure _
  · dsimp only
    split
    · refine along_bind along_get fun c => ?_
      exact along_bind (demoteForSlots_steady _ _ _) fun _ => along_raiseIf _ _
    · exact evictLeaves_steady _ _ fun _ => along_bind (along_pure _) fun _ => along_raiseIf _ _

theorem scheduleWriteThrough_steady (released : List (MixedBlock ι κ)) :
    Along Steady (scheduleWriteThrough cfg released) := by
  unfold scheduleWriteThrough
  split
  · exact along_pure _
  · refine along_bind tolerates_steady.nextDeviceCall fun _ => ?_
    refine along_bind (along_raiseIf _ _) fun _ => ?_
    refine along_bind tolerates_steady.pollOffload fun _ => along_bind along_get fun c => ?_
    dsimp only
    refine along_bind (steady_modify (fun _ => rfl) fun _ => rfl) fun _ => ?_
    split
    · exact along_pure _
    · unfold ensureHostCapacity
      refine along_bind (along_bind along_get fun c => ?_) fun _ => ?_
      · dsimp only
        split
        · exact along_pure _
        · exact along_bind (evictHostBlocks_steady _ _) fun _ => along_raiseIf _ _
      · exact along_bind (tolerates_steady.submitD2h _) fun _ =>
          steady_modify (fun _ => rfl) fun _ => rfl

end

end PrefixCacheCoordinator

end SparseEngine
