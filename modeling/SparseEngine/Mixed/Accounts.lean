import SparseEngine.Mixed.Transfers
import SparseEngine.PrefixCache.MembershipEpochs
import SparseEngine.PrefixCache.Runs

/-! The capacity accounts read two things of an indexed block. -/

namespace SparseEngine.PrefixCacheCoordinator

open PyM RadixPrefixIndex

variable {ι κ μ : Type} [LinearOrder ι]

def snapshot (b : MixedBlock ι κ) : Nat := b.payload.recurrentPayload.objectId

def account (b : MixedBlock ι κ) : Nat × Nat := (b.payload.recurrentBytes, snapshot b)

structure SameAccounts (s s' : RadixPrefixIndex ι (MixedPrefixBlockPayload κ)) : Prop where
  wf : WellFormed s'
  accounts : ∀ id, (s'.blocks.get? id).map account = (s.blocks.get? id).map account
  membership : SameMembership s s'

/-- From a well-formed index, `SameAccounts`. -/
def IndexQuiet (s s' : RadixPrefixIndex ι (MixedPrefixBlockPayload κ)) : Prop :=
  WellFormed s → SameAccounts s s'

theorem SameAccounts.refl {s : RadixPrefixIndex ι (MixedPrefixBlockPayload κ)}
    (h : WellFormed s) : SameAccounts s s := ⟨h, fun _ => rfl, rfl, rfl⟩

theorem SameAccounts.trans {s s' s'' : RadixPrefixIndex ι (MixedPrefixBlockPayload κ)}
    (h : SameAccounts s s') (h' : SameAccounts s' s'') : SameAccounts s s'' :=
  ⟨h'.wf, fun id => (h'.accounts id).trans (h.accounts id),
    h'.membership.1.trans h.membership.1, h'.membership.2.trans h.membership.2⟩

instance : Std.Refl (@IndexQuiet ι κ _) := ⟨fun _ h => .refl h⟩

instance : IsTrans (RadixPrefixIndex ι (MixedPrefixBlockPayload κ)) IndexQuiet :=
  ⟨fun _ _ _ h h' hwf => (h hwf).trans (h' (h hwf).wf)⟩

section

variable {s s' : RadixPrefixIndex ι (MixedPrefixBlockPayload κ)}

theorem accounts_set {blocks : Dict ι (MixedBlock ι κ)} {id : ι} {old new : MixedBlock ι κ}
    (hold : blocks.get? id = some old) (h : account new = account old) (x : ι) :
    ((blocks.set id new).get? x).map account = (blocks.get? x).map account := by
  rw [Dict.get?_set]
  split
  · next hx => subst hx; simp [hold, h]
  · rfl

theorem accounts_updated {R : MixedBlock ι κ → MixedBlock ι κ → Prop}
    {blocks blocks' : Dict ι (MixedBlock ι κ)} (h : Updated R blocks blocks')
    (hR : ∀ o n, R o n → account n = account o) (x : ι) :
    (blocks'.get? x).map account = (blocks.get? x).map account := by
  cases ho : blocks.get? x with
  | none =>
    have hn : x ∉ blocks'.keySet := by rw [h.keys]; simp [ho]
    have hn' : blocks'.get? x = none := by
      cases hx : blocks'.get? x with
      | none => rfl
      | some n => exact absurd (Dict.mem_keySet.mpr ⟨n, hx⟩) hn
    rw [hn']
  | some o =>
    obtain ⟨n, hn, -, hr⟩ := h.get ho
    rw [hn, Option.map_some, Option.map_some, hR o n hr]

theorem quiet_of_wp {α : Type} {m : IndexM ι (MixedPrefixBlockPayload κ) α}
    (hepochs : Along InPlace m)
    (h : ∀ s, WellFormed s → Keeps (fun s' => WellFormed s' ∧
      ∀ id, (s'.blocks.get? id).map account = (s.blocks.get? id).map account) m s) :
    Along IndexQuiet m := by
  intro s hwf
  obtain ⟨hwf', hacc⟩ := keeps_iff.mp (h s hwf)
  exact ⟨hwf', hacc, (hepochs s).2⟩

theorem accounts_of_unchanged (hwf : WellFormed s) (h : Unchanged s s') : WellFormed s' ∧
    ∀ id, (s'.blocks.get? id).map account = (s.blocks.get? id).map account :=
  ⟨h.1.wf hwf, fun id => by rw [h.2]⟩

theorem accounts_of_recast (hwf : WellFormed s) {b : MixedBlock ι κ}
    {r : PrefixBlockResidency → PrefixBlockResidency} (h : Recast s b r s') : WellFormed s' ∧
    ∀ id, (s'.blocks.get? id).map account = (s.blocks.get? id).map account := by
  refine ⟨h.steps.wf hwf, fun id => ?_⟩
  rcases h.blocks with ⟨c, hc, -, hs'⟩ | ⟨-, hs'⟩
  · rw [hs']
    refine accounts_set hc ?_ id
    rfl
  · rw [hs']

variable (b : MixedBlock ι κ)

theorem setBlockRefCount_quiet (n : Int) (message : String) :
    Along IndexQuiet (setBlockRefCount b n message) := by
  refine quiet_of_wp (setBlockRefCount_inPlace b n message) fun s hwf => ?_
  refine wp_mono (setBlockRefCount_spec hwf b n message) ?_ ?_
  · rintro - s' ⟨hsteps, c, hc, -, -, hs'⟩
    refine ⟨hsteps.wf hwf, fun id => ?_⟩
    rw [hs']
    refine accounts_set hc ?_ id
    rfl
  · rintro - s' ⟨rfl, -⟩
    exact ⟨hwf, fun _ => rfl⟩

theorem acquireBlockRef_quiet : Along IndexQuiet (acquireBlockRef b) :=
  along_bind along_get fun _ => setBlockRefCount_quiet b _ _

theorem releaseBlockRef_quiet (message : String) :
    Along IndexQuiet (releaseBlockRef b message) :=
  along_bind along_get fun _ => setBlockRefCount_quiet b _ _

theorem beginD2h_quiet : Along IndexQuiet (beginD2h b) :=
  quiet_of_wp (beginD2h_inPlace b) fun _ hwf => wp_mono (beginD2h_spec hwf b)
    (fun _ _ h => accounts_of_recast hwf h.1) fun _ _ h => accounts_of_unchanged hwf h

theorem finishD2h_quiet : Along IndexQuiet (finishD2h b) :=
  quiet_of_wp (finishD2h_inPlace b) fun _ hwf => wp_mono (finishD2h_spec hwf b)
    (fun _ _ h => accounts_of_recast hwf h.1) fun _ _ h => accounts_of_unchanged hwf h

theorem abortD2h_quiet : Along IndexQuiet (abortD2h b) :=
  quiet_of_wp (abortD2h_inPlace b) fun _ hwf => wp_mono (abortD2h_spec hwf b)
    (fun _ _ h => accounts_of_recast hwf h.1) fun _ _ h => accounts_of_unchanged hwf h

theorem beginH2d_quiet : Along IndexQuiet (beginH2d b) :=
  quiet_of_wp (beginH2d_inPlace b) fun _ hwf => wp_mono (beginH2d_spec hwf b)
    (fun _ _ h => accounts_of_recast hwf h.1) fun _ _ h => accounts_of_unchanged hwf h

theorem finishH2d_quiet : Along IndexQuiet (finishH2d b) :=
  quiet_of_wp (finishH2d_inPlace b) fun _ hwf => wp_mono (finishH2d_spec hwf b)
    (fun _ _ h => accounts_of_recast hwf h.1) fun _ _ h => accounts_of_unchanged hwf h

theorem abortH2d_quiet : Along IndexQuiet (abortH2d b) :=
  quiet_of_wp (abortH2d_inPlace b) fun _ hwf => wp_mono (abortH2d_spec hwf b)
    (fun _ _ h => accounts_of_recast hwf h.1) fun _ _ h => accounts_of_unchanged hwf h

theorem touchChain_quiet (bs : List (MixedBlock ι κ)) : Along IndexQuiet (touchChain bs) := by
  refine quiet_of_wp (touchChain_inPlace bs) fun s hwf => ?_
  refine wp_mono (touchChain_spec hwf bs) (fun _ s' h => ?_) fun _ _ h => h.elim
  refine ⟨h.1.wf hwf, accounts_updated h.2 ?_⟩
  rintro o _ ⟨t, rfl⟩
  rfl

theorem Demotions.accounts {bs : List (MixedBlock ι κ)} (h : Demotions s s' bs) (id : ι) :
    (s'.blocks.get? id).map account = (s.blocks.get? id).map account := by
  induction h with
  | nil => rfl
  | snoc _ hget _ _ _ hblocks ih =>
    rw [hblocks, ← ih]
    refine accounts_set hget ?_ id
    rfl

theorem demoteDeviceUntilWeight_quiet (needed : Int) (weight : MixedBlock ι κ → Int) :
    Along IndexQuiet (demoteDeviceUntilWeight needed weight) := by
  refine quiet_of_wp (demoteDeviceUntilWeight_inPlace needed weight) fun s hwf => ?_
  refine wp_mono (demoteDeviceUntilWeight_spec hwf needed weight) ?_ ?_
  · rintro _ s' ⟨bs, -, hres⟩
    exact ⟨hres.demotions.steps.wf hwf, Demotions.accounts hres.demotions⟩
  · rintro _ s' ⟨-, ⟨bs, hdem⟩, -⟩
    exact ⟨hdem.steps.wf hwf, Demotions.accounts hdem⟩

theorem setSubtreeEvictionPriority_quiet (cfg : PrefixIndexConfig ι) (tokenIds : List Int)
    (priority : Int) : Along (@IndexQuiet ι κ _)
      (setSubtreeEvictionPriority cfg tokenIds priority) := by
  refine quiet_of_wp (setSubtreeEvictionPriority_inPlace cfg tokenIds priority) fun s hwf => ?_
  refine wp_mono (setSubtreeEvictionPriority_spec cfg hwf tokenIds priority) ?_ ?_
  · rintro - s' ⟨hsteps, hupd⟩
    refine ⟨hsteps.wf hwf, accounts_updated hupd ?_⟩
    rintro o _ ⟨p, rfl⟩
    rfl
  · rintro - s' rfl
    exact ⟨hwf, fun _ => rfl⟩

theorem assign_quiet
    (f : MixedPrefixBlockPayload κ → MixedPrefixBlockPayload κ)
    (hf : ∀ p, (f p).recurrentBytes = p.recurrentBytes ∧
      (f p).recurrentPayload.objectId = p.recurrentPayload.objectId) :
    Along IndexQuiet (PyM.modify fun s : RadixPrefixIndex ι (MixedPrefixBlockPayload κ) =>
      s.assign { s.deref b with payload := f (s.deref b).payload }) := by
  refine along_modify fun s hwf => ?_
  cases hi : s.isIndexed b with
  | false =>
    rw [deref_of_not_indexed hi, assign_of_not_indexed (by rw [← hi]; rfl)]
    exact .refl hwf
  | true =>
    obtain ⟨c, hc, ho⟩ := isIndexed_iff.mp hi
    have hid := hwf.ids _ _ hc
    rw [deref_of_indexed hc ho]
    have hc' : s.blocks.get? c.stableBlockId = some c := by rw [hid]; exact hc
    have hi' : s.isIndexed { c with payload := f c.payload } = true :=
      isIndexed_iff.mpr ⟨c, hc', rfl⟩
    rw [assign_of_indexed hi']
    refine ⟨?_, fun x => accounts_set hc' ?_ x, rfl, rfl⟩
    · exact hwf.set_same hc' ⟨rfl, rfl, rfl, rfl, rfl⟩ (.same hwf.residency hc' rfl) rfl
    · exact Prod.ext (hf c.payload).1 (hf c.payload).2

end

/-- Besides the release of the snapshots `gone`, the accounts are as before. -/
structure Released (gone : Finset Nat) (c c' : PrefixCacheCoordinator ι κ μ) : Prop where
  index : SameAccounts c.prefixCache c'.prefixCache
  pendingBlocks : c'.pendingBlocks = c.pendingBlocks
  pendingBlockIds : c'.pendingBlockIds = c.pendingBlockIds
  pendingRecurrentBytes : c'.pendingRecurrentBytes = c.pendingRecurrentBytes
  recurrentBytesCache : c'.recurrentBytesCache = c.recurrentBytesCache
  nextSnapshotId : c'.nextSnapshotId = c.nextSnapshotId
  liveSnapshots : c'.liveSnapshots = c.liveSnapshots \ gone
  raised : c.releaseRaised = true → c'.releaseRaised = true

abbrev Undisturbed (c c' : PrefixCacheCoordinator ι κ μ) : Prop := Released ∅ c c'

/-- From a well-formed index, `Undisturbed`. -/
def Quiet (c c' : PrefixCacheCoordinator ι κ μ) : Prop :=
  WellFormed c.prefixCache → Undisturbed c c'

theorem Released.refl {c : PrefixCacheCoordinator ι κ μ} (h : WellFormed c.prefixCache) :
    Undisturbed c c := ⟨.refl h, rfl, rfl, rfl, rfl, rfl, by simp, fun h => h⟩

theorem Released.trans {c c' c'' : PrefixCacheCoordinator ι κ μ} {gone gone' : Finset Nat}
    (h : Released gone c c') (h' : Released gone' c' c'') : Released (gone ∪ gone') c c'' where
  index := h.index.trans h'.index
  pendingBlocks := h'.pendingBlocks.trans h.pendingBlocks
  pendingBlockIds := h'.pendingBlockIds.trans h.pendingBlockIds
  pendingRecurrentBytes := h'.pendingRecurrentBytes.trans h.pendingRecurrentBytes
  recurrentBytesCache := h'.recurrentBytesCache.trans h.recurrentBytesCache
  nextSnapshotId := h'.nextSnapshotId.trans h.nextSnapshotId
  liveSnapshots := by rw [h'.liveSnapshots, h.liveSnapshots, sdiff_sdiff]; rfl
  raised := fun hr => h'.raised (h.raised hr)

instance : Std.Refl (@Quiet ι κ μ _) := ⟨fun _ h => .refl h⟩

instance : IsTrans (PrefixCacheCoordinator ι κ μ) Quiet :=
  ⟨fun _ _ _ h h' hwf => by simpa using (h hwf).trans (h' (h hwf).index.wf)⟩

section

variable {α : Type} {cfg : CoordinatorConfig ι κ μ}

theorem quiet_onIndex {m : IndexM ι (MixedPrefixBlockPayload κ) α} (h : Along IndexQuiet m) :
    Along (@Quiet ι κ μ _) (onIndex m) :=
  along_zoom h fun _ _ hR hwf =>
    ⟨hR hwf, rfl, rfl, rfl, rfl, rfl, by simp, fun h => h⟩

theorem quiet_onManagers (m : PyM μ α) : Along (@Quiet ι κ μ _) (onManagers m) :=
  along_zoom (R := fun _ _ => True) (fun _ => trivial) fun _ _ _ hwf =>
    ⟨.refl hwf, rfl, rfl, rfl, rfl, rfl, by simp, fun h => h⟩

theorem quiet_modifyOffload
    (f : MixedPrefixOffloadController ι κ → MixedPrefixOffloadController ι κ) :
    Along (@Quiet ι κ μ _) (modifyOffload f) :=
  along_modify fun _ hwf => ⟨.refl hwf, rfl, rfl, rfl, rfl, rfl, by simp, fun h => h⟩

theorem quiet_setPayload (b : MixedBlock ι κ)
    {f : MixedPrefixBlockPayload κ → MixedPrefixBlockPayload κ}
    (hf : ∀ p, (f p).recurrentBytes = p.recurrentBytes ∧
      (f p).recurrentPayload.objectId = p.recurrentPayload.objectId) :
    Along (@Quiet ι κ μ _) (setPayload b f) := quiet_onIndex (assign_quiet b f hf)

theorem releasing_spec {m : CoordM ι κ μ Unit} (hm : Along Quiet m)
    {c : PrefixCacheCoordinator ι κ μ} (hwf : WellFormed c.prefixCache) :
    wp (releasing m) (fun _ c' => Undisturbed c c')
      (fun _ c' => Undisturbed c c' ∧ c'.releaseRaised = true) c := by
  have h := hm c hwf
  simp only [releasing, wp_tryExcept, wp_bind, wp_modify, wp_raise]
  unfold wp
  revert h
  cases m c with
  | mk r c' =>
    cases r with
    | ok _ => exact fun h => h
    | error e =>
      exact fun h => ⟨{ h with raised := fun _ => rfl }, trivial⟩

theorem tolerates_quiet : Tolerates (@Quiet ι κ μ _) where
  managers := quiet_onManagers
  offload := quiet_modifyOffload
  payload := quiet_setPayload
  beginD2h := fun b => quiet_onIndex (beginD2h_quiet b)
  finishD2h := fun b => quiet_onIndex (finishD2h_quiet b)
  abortD2h := fun b => quiet_onIndex (abortD2h_quiet b)
  finishH2d := fun b => quiet_onIndex (finishH2d_quiet b)

theorem submitH2d_quiet (blocks : List (MixedBlock ι κ)) : Along Quiet (submitH2d cfg blocks) := by
  refine along_bind (along_raiseIf _ _) fun _ => along_bind tolerates_quiet.nextDeviceCall fun k => ?_
  refine along_bind (along_raiseIf _ _) fun _ => along_bind along_get fun c => ?_
  refine along_bind (along_lift _) fun _ => along_bind (along_lift _) fun _ => ?_
  refine along_bind (along_raiseIf _ _) fun _ => ?_
  refine along_bind (along_untilError (fun b => quiet_onIndex (beginH2d_quiet b)) _) fun r => ?_
  obtain ⟨begun, error⟩ := r
  have habort : ∀ e, Along (@Quiet ι κ μ _) (do
      PyM.forEach (fun b => onIndex (RadixPrefixIndex.abortH2d b)) begun.reverse
      PyM.raise e : CoordM ι κ μ Unit) := fun e =>
    along_bind (along_forEach fun b _ => quiet_onIndex (abortH2d_quiet b)) fun _ => along_raise e
  cases error with
  | some e => exact habort e
  | none =>
    dsimp only
    split
    · exact habort _
    · exact quiet_modifyOffload _

end

end SparseEngine.PrefixCacheCoordinator
