import SparseEngine.PrefixCache.Evictions

/-! `insert_epoch` and `remove_epoch` count how often a block was indexed and removed. -/

namespace SparseEngine.RadixPrefixIndex

open PyM

variable {ι π : Type} [LinearOrder ι]

def SameMembership (s s' : RadixPrefixIndex ι π) : Prop :=
  s'.epochs.insert = s.epochs.insert ∧ s'.epochs.remove = s.epochs.remove

def InPlace (s s' : RadixPrefixIndex ι π) : Prop :=
  s'.blocks.keySet = s.blocks.keySet ∧ SameMembership s s'

instance : Std.Refl (@InPlace ι π _) := ⟨fun _ => ⟨rfl, rfl, rfl⟩⟩

instance : IsTrans (RadixPrefixIndex ι π) InPlace :=
  ⟨fun _ _ _ h h' => ⟨h'.1.trans h.1, h'.2.1.trans h.2.1, h'.2.2.trans h.2.2⟩⟩

theorem inPlace_assign (s : RadixPrefixIndex ι π) (b : PrefixCacheBlock ι π) :
    InPlace s (s.assign b) := by
  unfold assign
  split
  · next h =>
    obtain ⟨c, hc, -⟩ := isIndexed_iff.mp h
    exact ⟨keySet_set_old hc, rfl, rfl⟩
  · exact refl s

theorem tick_inPlace : Along InPlace (tick : IndexM ι π Nat) :=
  fun _ => ⟨rfl, rfl, rfl⟩

theorem markMutated_inPlace : Along InPlace (markMutated : IndexM ι π Unit) :=
  fun _ => ⟨rfl, rfl, rfl⟩

theorem markCapacityMutated_inPlace :
    Along InPlace (markCapacityMutated : IndexM ι π Unit) := fun _ => ⟨rfl, rfl, rfl⟩

theorem markPayload_inPlace : Along InPlace (markPayload : IndexM ι π Unit) :=
  fun _ => ⟨rfl, rfl, rfl⟩

theorem refreshFreeablePath_inPlace (id : Option ι) :
    Along InPlace (refreshFreeablePath id : IndexM ι π Unit) := by
  intro s
  unfold refreshFreeablePath
  split
  · exact refl s
  · exact ⟨rfl, rfl, rfl⟩

variable (b : PrefixCacheBlock ι π)

theorem setBlockRefCount_inPlace (n : Int) (message : String) :
    Along InPlace (setBlockRefCount b n message) := by
  refine along_bind (along_bind along_get fun s => along_raiseIf _ _) fun _ => ?_
  refine along_bind (along_raiseIf _ _) fun _ => along_bind along_get fun s => ?_
  dsimp only
  split
  · exact along_pure ()
  · refine along_bind (along_modify fun s => inPlace_assign s _) fun _ => ?_
    split
    · exact along_bind (refreshFreeablePath_inPlace _) fun _ => markCapacityMutated_inPlace
    · exact markMutated_inPlace

theorem touchChain_inPlace (bs : List (PrefixCacheBlock ι π)) :
    Along InPlace (touchChain bs) :=
  along_bind tick_inPlace fun _ =>
    along_forEach fun _ _ => along_modify fun s => inPlace_assign s _

theorem commitResidency_inPlace (r : PrefixBlockResidency) :
    Along InPlace (commitResidency b r) :=
  along_bind (along_modify fun s => inPlace_assign s _) fun _ =>
    along_bind (along_lift _) fun _ =>
      along_bind (refreshFreeablePath_inPlace _) fun _ => markCapacityMutated_inPlace

theorem beginD2h_inPlace : Along InPlace (beginD2h b) := by
  refine along_bind along_get fun s => along_bind (along_raiseIf _ _) fun _ => ?_
  refine along_bind (along_lift _) fun _ => along_bind (along_raiseIf _ _) fun _ => ?_
  refine along_bind (along_raiseIf _ _) fun _ => along_bind (along_raiseIf _ _) fun _ => ?_
  exact along_bind (along_raiseIf _ _) fun _ => commitResidency_inPlace b _

theorem finishD2h_inPlace : Along InPlace (finishD2h b) :=
  along_bind along_get fun _ => along_bind (along_raiseIf _ _) fun _ =>
    along_bind (along_raiseIf _ _) fun _ => commitResidency_inPlace b _

theorem abortD2h_inPlace : Along InPlace (abortD2h b) :=
  along_bind along_get fun _ => along_bind (along_raiseIf _ _) fun _ =>
    commitResidency_inPlace b _

theorem beginH2d_inPlace : Along InPlace (beginH2d b) := by
  refine along_bind along_get fun s => along_bind (along_raiseIf _ _) fun _ => ?_
  refine along_bind (along_lift _) fun _ => along_bind (along_raiseIf _ _) fun _ => ?_
  refine along_bind (along_raiseIf _ _) fun _ => along_bind (along_raiseIf _ _) fun _ => ?_
  refine along_bind (along_raiseIf _ _) fun _ => along_bind markPayload_inPlace fun _ => ?_
  exact commitResidency_inPlace b _

theorem finishH2d_inPlace : Along InPlace (finishH2d b) :=
  along_bind along_get fun _ => along_bind (along_raiseIf _ _) fun _ =>
    commitResidency_inPlace b _

theorem abortH2d_inPlace : Along InPlace (abortH2d b) :=
  along_bind along_get fun _ => along_bind (along_raiseIf _ _) fun _ =>
    along_bind (along_lift _) fun _ => along_bind (along_raiseIf _ _) fun _ =>
      along_bind markPayload_inPlace fun _ => commitResidency_inPlace b _

theorem demoteDevice_inPlace :
    Along InPlace (demoteDevice b) :=
  along_bind (along_modify fun s => inPlace_assign s _) fun _ =>
    along_bind markPayload_inPlace fun _ =>
      along_bind (along_lift _) fun _ => markCapacityMutated_inPlace

theorem demoteLoop_inPlace (needed : Int) (weight : PrefixCacheBlock ι π → Int) (fuel : Nat) :
    ∀ (heap : List (EvictionCandidate ι)) (queued : Finset ι) (counts : Dict ι Int)
      (bs : List (PrefixCacheBlock ι π)) (total : Int),
      Along InPlace (demoteLoop needed weight fuel heap queued counts bs total) := by
  induction fuel with
  | zero => exact fun _ _ _ _ _ => along_raise _
  | succ fuel ih =>
    intro heap queued counts bs total
    unfold demoteLoop
    split
    · exact along_pure _
    · cases heap with
      | nil => exact along_pure _
      | cons candidate heap =>
        refine along_bind along_get fun s => ?_
        split
        · exact ih _ _ _ _ _
        · refine along_bind (along_lift _) fun now => ?_
          split
          · refine along_bind (along_raiseIf _ _) fun _ => ?_
            refine along_bind (demoteDevice_inPlace _) fun _ => along_bind along_get fun s => ?_
            dsimp only
            split
            · exact ih _ _ _ _ _
            · refine along_bind (along_lift _) fun counts => along_bind (along_lift _) fun n => ?_
              split
              · exact along_bind (along_lift _) fun _ => ih _ _ _ _ _
              · exact ih _ _ _ _ _
          · exact ih _ _ _ _ _

theorem demoteDeviceUntilWeight_inPlace (needed : Int) (weight : PrefixCacheBlock ι π → Int) :
    Along InPlace (demoteDeviceUntilWeight needed weight) := by
  unfold demoteDeviceUntilWeight
  split
  · exact along_pure _
  · refine along_bind along_get fun s => along_bind (along_lift _) fun counts => ?_
    exact along_bind (along_lift _) fun _ => demoteLoop_inPlace _ _ _ _ _ _ _ _

theorem setPriorityLoop_inPlace (priority : Int) : ∀ (ids : List ι) (updated : Nat)
    (changed crossed : Bool),
    Along InPlace
      (setPriorityLoop priority ids updated changed crossed : IndexM ι π (Nat × Bool × Bool))
  | [], _, _, _ => along_pure _
  | id :: ids, updated, changed, crossed => by
    unfold setPriorityLoop
    refine along_bind along_get fun s => ?_
    split
    · exact setPriorityLoop_inPlace priority ids _ _ _
    · split
      · exact setPriorityLoop_inPlace priority ids _ _ _
      · refine along_bind (along_modify fun s => inPlace_assign s _) fun _ => ?_
        dsimp only
        split
        · exact along_bind (refreshFreeablePath_inPlace _) fun _ =>
            setPriorityLoop_inPlace priority ids _ _ _
        · exact along_bind (along_pure _) fun _ => setPriorityLoop_inPlace priority ids _ _ _

theorem setSubtreeEvictionPriority_inPlace (cfg : PrefixIndexConfig ι) (tokenIds : List Int)
    (priority : Int) :
    Along InPlace
      (setSubtreeEvictionPriority cfg tokenIds priority : IndexM ι π (Option ι × Nat)) := by
  refine along_bind along_get fun s => ?_
  dsimp only
  split
  · exact along_pure _
  · refine along_bind (along_lift _) fun result => ?_
    split
    · exact along_pure _
    · split
      · exact along_pure _
      · refine along_bind (along_lift _) fun ids => ?_
        refine along_bind (setPriorityLoop_inPlace priority ids 0 false false) fun r => ?_
        split
        · exact along_bind markCapacityMutated_inPlace fun _ => along_pure _
        · split
          · exact along_bind markMutated_inPlace fun _ => along_pure _
          · exact along_bind (along_pure ()) fun _ => along_pure _

theorem freeableBlockIds_inPlace : Along InPlace (freeableBlockIds : IndexM ι π (Finset ι)) := by
  refine along_bind along_get fun s => ?_
  dsimp only
  split
  · exact along_pure _
  · split
    · exact along_bind (along_modify fun s => ⟨rfl, rfl, rfl⟩) fun _ => along_pure _
    · exact along_bind (along_lift _) fun _ =>
        along_bind (along_modify fun s => ⟨rfl, rfl, rfl⟩) fun _ => along_pure _

theorem evictableBlockIds_inPlace : Along InPlace (evictableBlockIds : IndexM ι π (Finset ι)) := by
  refine along_bind along_get fun s => ?_
  dsimp only
  split
  · exact along_pure _
  · exact along_bind (along_modify fun s => ⟨rfl, rfl, rfl⟩) fun _ => along_pure _

theorem deviceReclaimableIds_inPlace (includeInflightD2h : Bool) :
    Along InPlace (deviceReclaimableIds includeInflightD2h : IndexM ι π (Finset ι)) := by
  cases includeInflightD2h
  all_goals
    refine along_bind along_get fun s => along_ite (along_pure _) ?_
    exact along_bind (along_lift _) fun _ =>
      along_bind (along_modify fun s => ⟨rfl, rfl, rfl⟩) fun _ => along_pure _

theorem markPayloadCompacted_inPlace (bs : List (PrefixCacheBlock ι π)) :
    Along InPlace (markPayloadCompacted bs) := by
  unfold markPayloadCompacted
  split
  · exact along_pure _
  · exact along_bind (along_forEach fun _ _ => along_bind along_get fun _ => along_raiseIf _ _)
      fun _ => along_modify fun s => ⟨rfl, rfl, rfl⟩

variable {s s' : RadixPrefixIndex ι π}

def Traced (s s' : RadixPrefixIndex ι π) : Prop :=
  s.epochs.remove ≤ s'.epochs.remove ∧
    (s'.epochs.remove = s.epochs.remove → s.blocks.keySet ⊆ s'.blocks.keySet)

theorem Traced.refl (s : RadixPrefixIndex ι π) : Traced s s := ⟨le_rfl, fun _ => subset_rfl⟩

theorem Traced.trans {s'' : RadixPrefixIndex ι π} (h : Traced s s') (h' : Traced s' s'') :
    Traced s s'' := by
  refine ⟨h.1.trans h'.1, fun he => ?_⟩
  have hle := h.1
  have hle' := h'.1
  exact (h.2 (by omega)).trans (h'.2 (by omega))

instance : Std.Refl (@Traced ι π _) := ⟨Traced.refl⟩

instance : IsTrans (RadixPrefixIndex ι π) Traced := ⟨fun _ _ _ => Traced.trans⟩

theorem InPlace.traced (h : InPlace s s') : Traced s s' :=
  ⟨h.2.2.ge, fun _ => h.1.ge⟩

theorem Step.remove_epochs (h : Step s s') {id : ι} {b : PrefixCacheBlock ι π}
    (hb : s.blocks.get? id = some b) (hs' : s'.blocks = s.blocks.erase id) :
    s'.epochs.insert = s.epochs.insert ∧ s'.epochs.remove = s.epochs.remove + 1 := by
  have hgone : ¬ s'.blocks.keySet = s.blocks.keySet := by
    intro heq
    have hmem : id ∈ s'.blocks.keySet := heq ▸ Dict.mem_keySet.mpr ⟨b, hb⟩
    rw [hs', Dict.keySet_erase] at hmem
    simp at hmem
  cases h.change with
  | update hu _ _ _ _ => exact absurd hu.keys hgone
  | quiet hu _ _ _ _ => exact absurd hu.keys hgone
  | remove _ _ _ _ he _ _ => rw [he]; exact ⟨rfl, rfl⟩
  | view hv _ _ _ => exact absurd (by rw [hv]) hgone

theorem Removals.epochs {bs : List (PrefixCacheBlock ι π)} (h : Removals s s' bs) :
    s'.epochs.insert = s.epochs.insert ∧ s'.epochs.remove = s.epochs.remove + bs.length := by
  induction h with
  | nil => exact ⟨rfl, rfl⟩
  | snoc _ hrem hstep hblocks ih =>
    obtain ⟨hi, hr⟩ := hstep.remove_epochs hrem.1 hblocks
    rw [hi, hr, List.length_append]
    exact ⟨ih.1, by rw [ih.2]; rfl⟩

theorem Removals.traced {bs : List (PrefixCacheBlock ι π)} (h : Removals s s' bs) :
    Traced s s' := by
  have hr := h.epochs.2
  refine ⟨by omega, fun he => ?_⟩
  cases h with
  | nil => exact subset_rfl
  | snoc => simp at hr; omega

theorem storeNewBlock_traced : Along Traced (storeNewBlock b) := by
  have hsame : ∀ {α : Type} {m : IndexM ι π α}, Along InPlace m → Along Traced m :=
    fun hm s => (hm s).traced
  have hupd : ∀ {f : RadixPrefixIndex ι π → RadixPrefixIndex ι π}, (∀ s, InPlace s (f s)) →
      Along Traced (PyM.modify f) := fun hf => hsame (along_modify hf)
  refine along_bind (hsame tick_inPlace) fun now => ?_
  refine along_bind (along_modify fun s => ⟨le_rfl, fun _ => ?_⟩) fun _ => ?_
  · intro id hid
    rw [Dict.keySet_set]
    exact Finset.mem_insert_of_mem hid
  refine along_bind (fun s => ⟨le_rfl, fun _ => subset_rfl⟩) fun _ => ?_
  refine along_bind (hsame ?_) fun _ => along_bind (hupd fun s => ⟨rfl, rfl, rfl⟩) fun _ => ?_
  · refine along_bind along_get fun s => ?_
    dsimp only
    split
    · exact along_pure _
    · refine along_bind (along_modify fun s => ⟨rfl, rfl, rfl⟩) fun _ => ?_
      refine along_bind (along_lift _) fun _ =>
        along_bind (along_modify fun s => ⟨rfl, rfl, rfl⟩) fun _ => ?_
      exact along_bind (refreshFreeablePath_inPlace _) fun _ => refreshFreeablePath_inPlace _
  refine along_bind along_get fun s => along_bind (along_lift _) fun _ => ?_
  refine along_bind (hupd fun s => ⟨rfl, rfl, rfl⟩) fun _ => ?_
  refine along_bind (along_modify fun s => ⟨?_, fun _ => subset_rfl⟩) fun _ => along_pure _
  unfold IndexEpochs.markInserted
  split <;> exact le_rfl

theorem insertBlock_traced (cfg : PrefixIndexConfig ι) (b : PrefixCacheBlock ι π) :
    Along Traced (insertBlock cfg b) := by
  have hsame : ∀ {α : Type} {m : IndexM ι π α}, Along InPlace m → Along Traced m :=
    fun hm s => (hm s).traced
  refine along_bind along_get fun s => along_bind (along_lift _) fun _ => ?_
  dsimp only
  split
  · exact hsame (along_bind tick_inPlace fun _ =>
      along_bind (along_modify fun s => inPlace_assign s _) fun _ => along_pure _)
  · split
    · exact hsame (along_bind evictableBlockIds_inPlace fun _ => along_raise _)
    · refine along_bind (hsame (along_bind along_get fun s => ?_)) fun _ => storeNewBlock_traced _
      split
      · exact along_pure _
      · split
        · exact along_raise _
        · exact along_bind (along_raiseIf _ _) fun _ => along_raiseIf _ _

end SparseEngine.RadixPrefixIndex
