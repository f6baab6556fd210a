import SparseEngine.Chain.Resumption
import SparseEngine.Lib.TwoRuns

/-! Every rank has a chain runtime of its own. -/

namespace SparseEngine

open PyM List Dict ChainCacheIndex ChainOffload ChainRecord

section

variable {ι φ δ : Type}

def ChainRecord.bare (r : ChainRecord ι φ δ) : ChainRecord ι φ δ := { r with tokenIds := [] }

def ChainRecord.Alike (r q : ChainRecord ι φ δ) : Prop := r.bare = q.bare

namespace ChainRecord.Alike

variable {r q : ChainRecord ι φ δ}

theorem read {β : Type} (h : r.Alike q) {f : ChainRecord ι φ δ → β} (hf : ∀ r, f r.bare = f r) :
    f r = f q := by
  rw [← hf r, ← hf q, h]

theorem chainId (h : r.Alike q) : r.chainId = q.chainId := h.read fun _ => rfl

theorem seqId (h : r.Alike q) : r.seqId = q.seqId := h.read fun _ => rfl

theorem fingerprint (h : r.Alike q) : r.fingerprint = q.fingerprint := h.read fun _ => rfl

theorem state (h : r.Alike q) : r.state = q.state := h.read fun _ => rfl

theorem processedTokenCount (h : r.Alike q) : r.processedTokenCount = q.processedTokenCount :=
  h.read fun _ => rfl

theorem processedTokenDigest (h : r.Alike q) : r.processedTokenDigest = q.processedTokenDigest :=
  h.read fun _ => rfl

theorem residentRows (h : r.Alike q) : r.residentRows = q.residentRows := h.read fun _ => rfl

theorem allocatedCapacity (h : r.Alike q) : r.allocatedCapacity = q.allocatedCapacity :=
  h.read fun _ => rfl

theorem update {f : ChainRecord ι φ δ → ChainRecord ι φ δ} (hf : ∀ r, (f r).bare = (f r.bare).bare)
    (h : r.Alike q) : (f r).Alike (f q) := by
  unfold ChainRecord.Alike at h ⊢
  rw [hf r, hf q, h]

end ChainRecord.Alike

namespace ChainCacheIndex

variable [LinearOrder ι]

def Named (i : ChainCacheIndex ι φ δ) : Prop := ∀ id r, i.records.get? id = some r → r.chainId = id

structure Alike (i j : ChainCacheIndex ι φ δ) : Prop where
  records : i.records.mapValues bare = j.records.mapValues bare
  activeRecords : i.activeRecords = j.activeRecords
  seqIdToChainId : i.seqIdToChainId = j.seqIdToChainId
  tombstones : i.tombstones = j.tombstones
  clock : i.clock = j.clock
  named : i.Named

variable {i j : ChainCacheIndex ι φ δ} {r q : ChainRecord ι φ δ}

theorem Alike.keys (h : Alike i j) : i.records.keys = j.records.keys := by
  have hkeys := congrArg Dict.keys h.records
  rwa [Dict.keys_mapValues, Dict.keys_mapValues] at hkeys

theorem Alike.values (h : Alike i j) :
    i.records.values.map bare = j.records.values.map bare := by
  have hvalues := congrArg Dict.values h.records
  rwa [Dict.values_mapValues, Dict.values_mapValues] at hvalues

theorem tick_agree (h : Alike i j) : Agree Alike Eq tick tick i j :=
  ⟨congrArg (· + 1) h.clock, h.records, h.activeRecords, h.seqIdToChainId, h.tombstones,
    congrArg (· + 1) h.clock, h.named⟩

theorem Alike.contains (h : Alike i j) (id : ι) : i.records.contains id = j.records.contains id := by
  have hcontains := congrArg (Dict.contains · id) h.records
  rwa [Dict.contains_mapValues, Dict.contains_mapValues] at hcontains

theorem Alike.lookup (h : Alike i j) (id : ι) :
    (i.records.get? id = none ∧ j.records.get? id = none) ∨
      ∃ r q, i.records.get? id = some r ∧ j.records.get? id = some q ∧ r.Alike q := by
  have hget := congrArg (get? · id) h.records
  rw [Dict.get?_mapValues, Dict.get?_mapValues] at hget
  cases hi : i.records.get? id with
  | none =>
    cases hj : j.records.get? id with
    | none => exact .inl ⟨rfl, rfl⟩
    | some q =>
      rw [hi, hj] at hget
      cases hget
  | some r =>
    cases hj : j.records.get? id with
    | none =>
      rw [hi, hj] at hget
      cases hget
    | some q =>
      rw [hi, hj] at hget
      exact .inr ⟨r, q, rfl, rfl, Option.some.inj hget⟩

theorem Alike.refl (h : i.Named) : Alike i i := ⟨rfl, rfl, rfl, rfl, rfl, h⟩

theorem Alike.symm (h : Alike i j) : Alike j i := by
  refine ⟨h.records.symm, h.activeRecords.symm, h.seqIdToChainId.symm, h.tombstones.symm,
    h.clock.symm, fun id q hq => ?_⟩
  rcases h.lookup id with ⟨-, hnone⟩ | ⟨r, q', hr, hq', hrq⟩
  · rw [hnone] at hq
    cases hq
  · rw [hq'] at hq
    cases hq
    rw [← hrq.chainId]
    exact h.named id r hr

theorem Alike.trans {k : ChainCacheIndex ι φ δ} (h : Alike i j) (h' : Alike j k) : Alike i k :=
  ⟨h.records.trans h'.records, h.activeRecords.trans h'.activeRecords,
    h.seqIdToChainId.trans h'.seqIdToChainId, h.tombstones.trans h'.tombstones,
    h.clock.trans h'.clock, h.named⟩

theorem named_empty : ({} : ChainCacheIndex ι φ δ).Named := nofun

theorem Named.set (h : i.Named) (r : ChainRecord ι φ δ) : (setRecord r i).Named := by
  intro id q hq
  unfold setRecord at hq
  dsimp only at hq
  rw [get?_set] at hq
  split at hq
  · next hid =>
    cases hq
    exact hid.symm
  · exact h id q hq

theorem Alike.set (h : Alike i j) (hrq : r.Alike q) (id : ι) :
    (i.records.set id r).mapValues bare =
      (j.records.set id q).mapValues bare := by
  rw [mapValues_set, mapValues_set, h.records, hrq]

theorem Alike.erase (h : Alike i j) (id : ι) :
    (i.records.erase id).mapValues bare =
      (j.records.erase id).mapValues bare := by
  rw [mapValues_erase, mapValues_erase, h.records]

theorem lookup_agree (h : Alike i j) (id : ι) :
    Agree Alike ChainRecord.Alike (lookup id) (lookup id) i j := by
  unfold lookup
  refine agree_get ?_
  rcases h.lookup id with ⟨hi, hj⟩ | ⟨r, q, hi, hj, hrq⟩
  · rw [hi, hj]
    refine agree_ite (by rw [h.tombstones]) (fun _ => ?_) fun _ => ?_
    · exact agree_raise _ _ h
    · exact agree_raise _ _ h
  · rw [hi, hj]
    exact agree_pure hrq h

theorem setRecord_alike (h : Alike i j) (hrq : r.Alike q) : Alike (setRecord r i) (setRecord q j) := by
  refine ⟨?_, h.activeRecords, h.seqIdToChainId, h.tombstones, h.clock, h.named.set r⟩
  unfold setRecord
  rw [hrq.chainId]
  exact h.set hrq _

theorem setRecordState_agree (h : Alike i j) (hrq : r.Alike q) (state : ChainState) :
    Agree Alike (fun _ _ => True) (setRecordState r state) (setRecordState q state) i j := by
  have hset : (ChainRecord.Alike { r with state := state } { q with state := state }) :=
    hrq.update (f := fun r => { r with state := state }) fun _ => rfl
  have hrecords := setRecord_alike h hset
  refine agree_modify ⟨hrecords.records, ?_, h.seqIdToChainId, h.tombstones, h.clock, hrecords.named⟩
  dsimp only
  rw [h.activeRecords, hrq.chainId]

theorem addTombstone_agree (cfg : ChainIndexConfig δ) (h : Alike i j) (id : ι) :
    Agree Alike (fun _ _ => True) (addTombstone cfg id) (addTombstone cfg id) i j := by
  unfold addTombstone
  refine agree_seq (agree_modify (R := Alike) ⟨h.records, h.activeRecords, h.seqIdToChainId,
    congrArg (erase · id) h.tombstones, h.clock, h.named⟩) fun _ _ i₁ j₁ _ h₁ => ?_
  refine agree_seq (tick_agree h₁) fun now _ i₂ j₂ hnow h₂ => ?_
  subst hnow
  refine agree_modify ⟨h₂.records, h₂.activeRecords, h₂.seqIdToChainId, ?_, h₂.clock, h₂.named⟩
  dsimp only
  rw [h₂.tombstones]

theorem removeRecord_agree (cfg : ChainIndexConfig δ) (h : Alike i j) (hrq : r.Alike q) (id : ι) :
    Agree Alike (fun _ _ => True) (removeRecord cfg id r) (removeRecord cfg id q) i j := by
  unfold removeRecord
  refine agree_seq (agree_modify (R := Alike) ⟨h.erase id, congrArg (erase · id) h.activeRecords,
    ?_, h.tombstones, h.clock, fun k r hr => ?_⟩) fun _ _ i₁ j₁ _ h₁ => addTombstone_agree cfg h₁ id
  · dsimp only
    rw [h.seqIdToChainId, hrq.seqId]
  · dsimp only at hr
    rw [get?_erase] at hr
    split at hr
    · cases hr
    · exact h.named k r hr

theorem invalidate_agree (cfg : ChainIndexConfig δ) (h : Alike i j) (id : ι) :
    Agree Alike ChainRecord.Alike (invalidate cfg id) (invalidate cfg id) i j := by
  unfold invalidate
  refine agree_seq (lookup_agree h id) fun r q i₁ j₁ hrq h₁ => ?_
  exact agree_seq (removeRecord_agree cfg h₁ hrq id) fun _ _ _ _ _ h₂ => agree_pure hrq h₂

theorem evict_agree (cfg : ChainIndexConfig δ) (h : Alike i j) (id : ι) :
    Agree Alike ChainRecord.Alike (evict cfg id) (evict cfg id) i j := by
  unfold evict
  refine agree_seq (lookup_agree h id) fun r q i₁ j₁ hrq h₁ => ?_
  refine agree_seq (agree_raiseIf _ _ (by rw [hrq.state]) h₁) fun _ _ i₂ j₂ _ h₂ => ?_
  exact agree_seq (removeRecord_agree cfg h₂ hrq id) fun _ _ _ _ _ h₃ => agree_pure hrq h₃

theorem createRecord_agree (h : Alike i j) (plan : ChainAdmissionPlan ι) (fingerprint : φ) :
    Agree Alike ChainRecord.Alike (createRecord plan fingerprint) (createRecord plan fingerprint)
      i j := by
  unfold createRecord
  refine agree_get ?_
  refine agree_seq (agree_raiseIf _ _ (by rw [h.contains]) h) fun _ _ i₁ j₁ _ h₁ => ?_
  refine agree_seq (agree_raiseIf _ _ (by rw [h.seqIdToChainId]) h₁) fun _ _ i₂ j₂ _ h₂ => ?_
  refine agree_seq (tick_agree h₂) fun now _ i₃ j₃ hnow h₃ => ?_
  subst hnow
  refine agree_seq (setRecordState_agree h₃ rfl .active) fun _ _ i₄ j₄ _ h₄ => ?_
  refine agree_seq (agree_modify (R := Alike) ⟨h₄.records, h₄.activeRecords, ?_, h₄.tombstones,
    h₄.clock, h₄.named⟩) fun _ _ _ _ _ h₅ => agree_pure rfl h₅
  dsimp only
  rw [h₄.seqIdToChainId]

theorem resumeRecord_agree (h : Alike i j) (plan : ChainAdmissionPlan ι) :
    Agree Alike ChainRecord.Alike (resumeRecord plan) (resumeRecord plan) i j := by
  unfold resumeRecord
  refine agree_seq (lookup_agree h plan.chainId) fun r q i₁ j₁ hrq h₁ => ?_
  refine agree_seq (agree_raiseIf _ _ (by rw [hrq.state]) h₁) fun _ _ i₂ j₂ _ h₂ => ?_
  refine agree_seq (tick_agree h₂) fun now _ i₃ j₃ hnow h₃ => ?_
  subst hnow
  have hresumed := hrq.update (f := fun r : ChainRecord ι φ δ =>
    { r with
      state := .active
      lastInputTokenCount := plan.inputTokenCount
      lastAccess := now
      reservedSlotsByLayer := plan.reservedSlotsByLayer
      reservedRows := plan.reservedRows }) fun _ => rfl
  exact agree_seq (setRecordState_agree h₃ hresumed .active) fun _ _ _ _ _ h₄ =>
    agree_pure hresumed h₄

theorem applyAdmission_agree (cfg : ChainIndexConfig δ) (h : Alike i j) (plan : ChainAdmissionPlan ι)
    (fingerprint : φ) :
    Agree Alike ChainRecord.Alike (applyAdmission cfg plan fingerprint)
      (applyAdmission cfg plan fingerprint) i j := by
  unfold applyAdmission
  refine agree_seq (agree_forEach (fun victim i j h => ?_) _ h) fun _ _ i₁ j₁ _ h₁ => ?_
  · exact agree_seq (evict_agree cfg h victim) fun _ _ _ _ _ h₁ => agree_pure trivial h₁
  · cases plan.status with
    | created => exact createRecord_agree h₁ plan fingerprint
    | resumed => exact resumeRecord_agree h₁ plan

theorem finishDigest_agree (cfg : ChainIndexConfig δ) (h : Alike i j) (id : ι)
    (turn : FinishedTurn δ) :
    Agree Alike ChainRecord.Alike (finishDigest cfg id turn) (finishDigest cfg id turn) i j := by
  unfold finishDigest
  refine agree_seq (lookup_agree h id) fun r q i₁ j₁ hrq h₁ => ?_
  refine agree_seq (agree_raiseIf _ _ (by rw [hrq.state]) h₁) fun _ _ i₂ j₂ _ h₂ => ?_
  refine agree_seq (agree_raiseIf _ _ (by rw [hrq.processedTokenCount]) h₂) fun _ _ i₃ j₃ _ h₃ => ?_
  refine agree_seq (agree_raiseIf _ _ Iff.rfl h₃) fun _ _ i₄ j₄ _ h₄ => ?_
  have hfinished := hrq.update (f := fun r : ChainRecord ι φ δ =>
    { r with
      state := .idle
      processedTokenDigest := some turn.processedTokenDigest
      processedTokenCount := turn.processedTokenCount
      physicalSlotsByLayer := turn.physicalSlotsByLayer
      capacitySlots := turn.capacitySlots
      residentRows := turn.residentRows
      reservedSlotsByLayer := []
      reservedRows := 0 }) fun _ => rfl
  refine agree_seq (setRecordState_agree h₄ hfinished .idle) fun _ _ i₅ j₅ _ h₅ => ?_
  refine agree_seq (tick_agree h₅) fun now _ i₆ j₆ hnow h₆ => ?_
  subst hnow
  have htouched := hfinished.update (f := fun r : ChainRecord ι φ δ => { r with lastAccess := now })
    fun _ => rfl
  exact agree_seq (agree_modify (setRecord_alike h₆ htouched)) fun _ _ _ _ _ h₇ =>
    agree_pure htouched h₇

theorem Alike.idleResidentLru (h : Alike i j) :
    i.idleResidentLru.map bare = j.idleResidentLru.map bare := by
  have hsort : ∀ l : List (ChainRecord ι φ δ),
      (l.insertionSort lruLe).map bare = (l.map bare).insertionSort lruLe :=
    fun l => List.map_insertionSort _ _ _ _ fun _ _ _ _ => Iff.rfl
  unfold ChainCacheIndex.idleResidentLru
  rw [hsort, hsort]
  have hfilter : ∀ l : List (ChainRecord ι φ δ),
      (l.filter fun r => decide (r.state = .idle ∧ 0 < r.residentRows)).map bare =
        (l.map bare).filter fun r => decide (r.state = .idle ∧ 0 < r.residentRows) := by
    intro l
    rw [filter_map]
    rfl
  rw [hfilter, hfilter, h.values]

omit [LinearOrder ι] in
theorem takeVictims_bare (l : List (ChainRecord ι φ δ)) (rows : Int) (deficits : List Int) :
    takeVictims (l.map bare) rows deficits = takeVictims l rows deficits := by
  induction l generalizing rows deficits with
  | nil => rfl
  | cons r l ih =>
    rw [map_cons, takeVictims, takeVictims, ih]
    rfl

variable [DecidableEq φ] [DecidableEq δ]

/-- The same admission, given as tokens or as a digest. -/
structure SameRequest (cfg : ChainIndexConfig δ) (i : ChainCacheIndex ι φ δ)
    (a b : AdmissionRequest ι φ δ) : Prop where
  count : a.input.inputTokenCount = b.input.inputTokenCount
  digest : ∀ r, i.records.get? a.chainId = some r →
    SameOutcome Eq (a.input.prefixDigest cfg r.processedTokenCount)
      (b.input.prefixDigest cfg r.processedTokenCount)
  others : b = { a with input := b.input }

theorem admissionStatus_agree {cfg : ChainIndexConfig δ} {a b : AdmissionRequest ι φ δ}
    (h : Alike i j) (hab : SameRequest cfg i a b) :
    Agree Alike Eq (admissionStatus cfg a) (admissionStatus cfg b) i j := by
  have hid : b.chainId = a.chainId := by rw [hab.others]
  have hfingerprint : b.fingerprint = a.fingerprint := by rw [hab.others]
  have hseq : b.seqId = a.seqId := by rw [hab.others]
  unfold admissionStatus
  refine agree_get ?_
  rw [hid]
  rcases h.lookup a.chainId with ⟨hi, hj⟩ | ⟨r, q, hi, hj, hrq⟩
  · rw [hi, hj]
    refine agree_ite (by rw [h.tombstones]) (fun _ => ?_) fun _ => ?_
    · exact agree_seq (lookup_agree h a.chainId) fun _ _ _ _ _ h₁ => agree_pure rfl h₁
    · exact agree_pure rfl h
  · rw [hi, hj]
    have hdigest := hab.digest r hi
    refine agree_seq (agree_raiseIf _ _ (by rw [hrq.state]) h) fun _ _ i₁ j₁ _ h₁ => ?_
    refine agree_seq (agree_raiseIf _ _ (by rw [hrq.fingerprint, hfingerprint]) h₁)
      fun _ _ i₂ j₂ _ h₂ => ?_
    refine agree_seq (agree_raiseIf _ _ (by rw [hrq.seqId, hseq]) h₂) fun _ _ i₃ j₃ _ h₃ => ?_
    rw [hrq.processedTokenCount] at hdigest ⊢
    refine agree_seq (agree_lift hdigest h₃) fun d _ i₄ j₄ hd h₄ => ?_
    subst hd
    refine agree_seq (agree_raiseIf _ _ (by rw [hrq.processedTokenDigest]) h₄)
      fun _ _ i₅ j₅ _ h₅ => ?_
    exact agree_pure rfl h₅

theorem planAdmission_agree {cfg : ChainIndexConfig δ} {a b : AdmissionRequest ι φ δ}
    (h : Alike i j) (hab : SameRequest cfg i a b) :
    Agree Alike Eq (planAdmission cfg a) (planAdmission cfg b) i j := by
  have hid : b.chainId = a.chainId := by rw [hab.others]
  have hslots : b.requiredSlotsByLayer = a.requiredSlotsByLayer := by rw [hab.others]
  have hrows : b.rowDeficit = a.rowDeficit := by rw [hab.others]
  have hvictims : ∀ i : ChainCacheIndex ι φ δ, ∀ rows deficits,
      takeVictims (if 0 < rows ∨ ¬ deficits.all (· = 0) then
        i.idleResidentLru.filter fun r => decide (r.chainId ≠ a.chainId) else []) rows deficits =
      takeVictims (if 0 < rows ∨ ¬ deficits.all (· = 0) then
        (i.idleResidentLru.map bare).filter
          fun r => decide (r.chainId ≠ a.chainId) else []) rows deficits := by
    intro i rows deficits
    split
    · rw [← takeVictims_bare, filter_map]
      rfl
    · rfl
  unfold planAdmission
  refine agree_seq (admissionStatus_agree h hab) fun status _ i₁ j₁ hstatus h₁ => ?_
  subst hstatus
  obtain ⟨status, reused⟩ := status
  refine agree_get ?_
  dsimp only
  rw [hid, hslots, hrows, hvictims i₁, hvictims j₁, h₁.idleResidentLru]
  refine agree_seq (agree_raiseIf _ _ Iff.rfl h₁) fun _ _ i₂ j₂ _ h₂ => agree_pure ?_ h₂
  rw [hab.others]
  dsimp only
  rw [hab.count]

def Unmoved (i i' : ChainCacheIndex ι φ δ) : Prop := i.Alike i → i.Alike i'

instance : Std.Refl (Unmoved (ι := ι) (φ := φ) (δ := δ)) := ⟨fun _ h => h⟩

instance : IsTrans (ChainCacheIndex ι φ δ) Unmoved :=
  ⟨fun _ _ _ h h' hi => (h hi).trans (h' ((h hi).symm.trans (h hi)))⟩

omit [DecidableEq φ] [DecidableEq δ] in
theorem lookup_unmoved (id : ι) : Along Unmoved (lookup id : ChainM ι φ δ _) := by
  unfold lookup
  refine along_bind along_get fun i => ?_
  split
  · exact along_pure _
  · split
    · exact along_raise _
    · exact along_raise _

theorem planAdmission_unmoved (cfg : ChainIndexConfig δ) (req : AdmissionRequest ι φ δ) :
    Along Unmoved (planAdmission cfg req) := by
  have hstatus : Along Unmoved (admissionStatus cfg req) := by
    unfold admissionStatus
    refine along_bind along_get fun i => ?_
    split
    · split
      · exact along_bind (lookup_unmoved _) fun _ => along_pure _
      · exact along_pure _
    · refine along_bind (along_raiseIf _ _) fun _ => along_bind (along_raiseIf _ _) fun _ =>
        along_bind (along_raiseIf _ _) fun _ => along_bind (along_lift _) fun _ =>
        along_bind (along_raiseIf _ _) fun _ => along_pure _
  unfold planAdmission
  refine along_bind hstatus fun status => along_bind along_get fun i => ?_
  exact along_bind (along_raiseIf _ _) fun _ => along_pure _

omit [DecidableEq φ] in
theorem rememberPreparedTokens_unmoved (cfg : ChainIndexConfig δ)
    (prepared : PreparedChainTokens ι δ) :
    Along Unmoved (rememberPreparedTokens cfg prepared : ChainM ι φ δ _) := by
  intro i hi
  have hsame : ∀ (_ : PyError) (i' : ChainCacheIndex ι φ δ), i' = i → i.Alike i' := by
    rintro - i' rfl
    exact hi
  refine keeps_iff.mp ?_
  unfold Keeps rememberPreparedTokens
  rw [wp_bind]
  refine wp_mono (lookup_spec prepared.chainId) ?_ fun e i' he => hsame e i' he.1
  rintro r i₁ ⟨rfl, hr⟩
  rw [wp_bind, wp_raiseIf]
  refine ⟨fun _ => hi, fun _ => ?_⟩
  rw [wp_bind, wp_raiseIf]
  refine ⟨fun _ => hi, fun _ => ?_⟩
  unfold storeTokenHistory
  rw [wp_bind]
  refine wp_mono (checkTokenHistoryCapacity_spec r _) ?_ fun e i' he => hsame e i' he.1
  rintro - i₂ ⟨rfl, -⟩
  rw [wp_bind, wp_modify, wp_pure]
  have hown : i₂.records.get? r.chainId = some r := by
    rw [hi.named _ r hr]
    exact hr
  refine ⟨?_, rfl, rfl, rfl, rfl, hi.named⟩
  dsimp only [setRecord]
  rw [mapValues_set, set_eq_self]
  rw [Dict.get?_mapValues, hown]
  rfl

omit [DecidableEq φ] [DecidableEq δ] in
theorem routingSnapshot_unmoved :
    Along Unmoved (routingSnapshot : ChainM ι φ δ (ChainRoutingSnapshot ι)) := by
  unfold routingSnapshot
  refine along_bind along_get fun i => ?_
  cases i.routingSnapshotCache with
  | some snapshot => exact along_pure _
  | none =>
    refine along_bind (along_modify fun j hj => ?_) fun _ => along_pure _
    exact ⟨rfl, rfl, rfl, rfl, rfl, hj.named⟩

end ChainCacheIndex

end

namespace ChainOffload

variable {κ : Type}

structure Alike (o p : ChainOffload κ) : Prop where
  left : o.Inv
  right : p.Inv
  settled : o.settled = p.settled

variable {o p : ChainOffload κ}

theorem Alike.usedBytes (h : Alike o p) : o.usedBytes = p.usedBytes := by
  rw [← usedBytes_settled o, ← usedBytes_settled p, h.settled]

theorem Alike.contains (h : Alike o p) (seqId : Nat) :
    o.snapshots.contains seqId = p.snapshots.contains seqId := by
  rw [← contains_settled o, ← contains_settled p, h.settled]

theorem Alike.snapshotBytes (h : Alike o p) (seqId : Nat) :
    o.snapshotBytes seqId = p.snapshotBytes seqId := by
  rw [← snapshotBytes_settled o, ← snapshotBytes_settled p, h.settled]

theorem Alike.keys (h : Alike o p) : o.snapshots.keys = p.snapshots.keys := by
  have hkeys : o.settled.snapshots.keys = p.settled.snapshots.keys := by rw [h.settled]
  unfold ChainOffload.settled at hkeys
  rwa [Dict.keys_mapValues, Dict.keys_mapValues] at hkeys

theorem Alike.poll (h : Alike o p) (n m : Nat) : Alike (o.poll n) (p.poll m) := by
  obtain ⟨hleft, hsettled⟩ := h.left.poll n
  obtain ⟨hright, hsettled'⟩ := h.right.poll m
  exact ⟨hleft, hright, by rw [hsettled, hsettled', h.settled]⟩

theorem wait_agree (h : Alike o p) (seqId : Nat) :
    Agree Alike Eq (wait seqId) (wait seqId) o p := by
  refine agree_of_wp (wait_spec h.left seqId) (wait_spec h.right seqId) ?_ ?_ ?_ ?_
  · rintro a o' b p' ⟨hinv, hsettled, -, -, ha⟩ ⟨hinv', hsettled', -, -, hb⟩
    rw [h.settled, hb] at ha
    exact ⟨(Option.some.inj ha).symm, hinv, hinv', by rw [hsettled, hsettled', h.settled]⟩
  · rintro e o' e' p' ⟨-, rfl, -⟩ ⟨-, rfl, -⟩
    exact h
  · rintro a o' e' p' ⟨-, -, -, -, ha⟩ ⟨-, -, hnone⟩
    rw [h.settled, hnone] at ha
    cases ha
  · rintro e o' b p' ⟨-, -, hnone⟩ ⟨-, -, -, -, hb⟩
    rw [h.settled, hb] at hnone
    cases hnone

theorem drop_agree (h : Alike o p) (seqId : Nat) :
    Agree (fun o p => Alike o p ∧ o.snapshots.get? seqId = none ∧ p.snapshots.get? seqId = none)
      (fun _ _ => True) (drop seqId) (drop seqId) o p := by
  have hgone : ∀ {o o' : ChainOffload κ}, o'.settled = o.settled.without seqId →
      o'.snapshots.get? seqId = none := by
    intro o o' hsettled
    rw [← status_eq_none, ← status_settled, hsettled, status_without, if_pos rfl]
  refine agree_of_wp (drop_spec h.left seqId) (drop_spec h.right seqId) ?_ ?_ ?_ ?_
  · rintro - o' - p' ⟨hinv, hsettled⟩ ⟨hinv', hsettled'⟩
    refine ⟨trivial, ⟨hinv, hinv', ?_⟩, hgone hsettled, hgone hsettled'⟩
    rw [hsettled, hsettled', h.settled]
  · exact fun _ _ _ _ hf => hf.elim
  · exact fun _ _ _ _ _ hf => hf
  · exact fun _ _ _ _ hf => hf.elim

theorem invalidate_agree (h : Alike o p) (seqId : Nat) :
    Agree Alike (fun _ _ => True) (invalidate seqId) (invalidate seqId) o p := by
  refine agree_of_wp (invalidate_spec h.left seqId) (invalidate_spec h.right seqId) ?_ ?_ ?_ ?_
  · rintro - o' - p' ⟨hinv, hsettled⟩ ⟨hinv', hsettled'⟩
    exact ⟨trivial, hinv, hinv', by rw [hsettled, hsettled', h.settled]⟩
  · exact fun _ _ _ _ hf => hf.elim
  · exact fun _ _ _ _ _ hf => hf
  · exact fun _ _ _ _ hf => hf.elim

theorem Alike.store {seqId : Nat} {snapshot : ChainSnapshot κ} (h : Alike o p)
    (hnone : o.snapshots.get? seqId = none ∧ p.snapshots.get? seqId = none)
    (hc : snapshot.completion = true) :
    Alike (o.store seqId snapshot) (p.store seqId snapshot) := by
  obtain ⟨hinv, hsettled⟩ := h.left.store hnone.1 hc
  obtain ⟨hinv', hsettled'⟩ := h.right.store hnone.2 hc
  exact ⟨hinv, hinv', by rw [hsettled, hsettled', h.settled, h.usedBytes]⟩

theorem reset_agree (h : Alike o p) : Agree Alike (fun _ _ => True) reset reset o p := by
  unfold reset
  refine agree_get ?_
  rw [h.keys]
  exact agree_forEach (fun seqId o p h =>
    (drop_agree h seqId).mono (fun _ _ hv => hv) fun _ _ hr => hr.1) _ h

end ChainOffload

namespace ChainRuntime

variable {ι φ δ μ κ α : Type}

variable [LinearOrder ι]

structure Alike (s t : ChainRuntime ι φ δ μ κ) : Prop where
  index : s.index.Alike t.index
  offload : s.offload.Alike t.offload
  manager : s.manager = t.manager

variable {s t : ChainRuntime ι φ δ μ κ} {V : α → α → Prop}

theorem agree_onIndex {m n : PyM (ChainCacheIndex ι φ δ) α} (h : Alike s t)
    (hmn : Agree ChainCacheIndex.Alike V m n s.index t.index) :
    Agree Alike V (onIndex m) (onIndex n) s t :=
  agree_zoom hmn fun _ _ hindex => ⟨hindex, h.offload, h.manager⟩

theorem agree_onOffload {m n : PyM (ChainOffload κ) α} (h : Alike s t)
    (hmn : Agree ChainOffload.Alike V m n s.offload t.offload) :
    Agree Alike V (onOffload m) (onOffload n) s t :=
  agree_zoom hmn fun _ _ hoffload => ⟨h.index, hoffload, h.manager⟩

theorem agree_onManager (h : Alike s t) (m : PyM μ α) : Agree Alike Eq (onManager m) (onManager m) s t := by
  refine agree_zoom (R := Eq) ?_ fun _ _ hmanager => ⟨h.index, h.offload, hmanager⟩
  rw [h.manager]
  exact ⟨SameOutcome.rfl, rfl⟩

theorem agree_query (h : Alike s t) (f : μ → Except PyError α) :
    Agree Alike Eq (query f) (query f) s t := by
  unfold query
  refine agree_get ?_
  rw [h.manager]
  exact agree_lift SameOutcome.rfl h

theorem agree_whenOffload {cfg : ChainRuntimeConfig φ δ} {m n : RuntimeM ι φ δ μ κ Unit}
    (h : Alike s t) (hmn : Agree Alike (fun _ _ => True) m n s t) :
    Agree Alike (fun _ _ => True) (whenOffload cfg m) (whenOffload cfg n) s t := by
  unfold whenOffload
  cases cfg.capacityBytes with
  | none => exact agree_pure trivial h
  | some n => exact hmn

theorem agree_poll (h : Alike s t) (p q : Nat) :
    Agree Alike (fun _ _ => True) (onOffload (PyM.modify (ChainOffload.poll p)))
      (onOffload (PyM.modify (ChainOffload.poll q))) s t :=
  agree_onOffload h (agree_modify (h.offload.poll p q))

theorem agree_wait (h : Alike s t) (seqId : Nat) :
    Agree Alike Eq (onOffload (ChainOffload.wait seqId)) (onOffload (ChainOffload.wait seqId)) s t :=
  agree_onOffload h (wait_agree h.offload seqId)

theorem agree_drop (h : Alike s t) (seqId : Nat) :
    Agree Alike (fun _ _ => True) (onOffload (ChainOffload.drop seqId))
      (onOffload (ChainOffload.drop seqId)) s t :=
  agree_onOffload h ((drop_agree h.offload seqId).mono (fun _ _ hv => hv)
    fun _ _ hr => hr.1)

theorem Alike.symm (h : Alike s t) : Alike t s :=
  ⟨h.index.symm, ⟨h.offload.right, h.offload.left, h.offload.settled.symm⟩, h.manager.symm⟩

theorem Alike.trans {u : ChainRuntime ι φ δ μ κ} (h : Alike s t) (h' : Alike t u) : Alike s u :=
  ⟨h.index.trans h'.index,
    ⟨h.offload.left, h'.offload.right, h.offload.settled.trans h'.offload.settled⟩,
    h.manager.trans h'.manager⟩

def Unmoved (s s' : ChainRuntime ι φ δ μ κ) : Prop := s.Alike s → s.Alike s'

instance : Std.Refl (Unmoved (ι := ι) (φ := φ) (δ := δ) (μ := μ) (κ := κ)) := ⟨fun _ h => h⟩

instance : IsTrans (ChainRuntime ι φ δ μ κ) Unmoved :=
  ⟨fun _ _ _ h h' hs => (h hs).trans (h' ((h hs).symm.trans (h hs)))⟩

theorem unmoved_onIndex {m : PyM (ChainCacheIndex ι φ δ) α} (hm : Along ChainCacheIndex.Unmoved m) :
    Along Unmoved (onIndex m : RuntimeM ι φ δ μ κ α) :=
  along_zoom hm fun _ _ hindex hs => ⟨hindex hs.index, hs.offload, rfl⟩

theorem unmoved_poll (cfg : ChainRuntimeConfig φ δ) (n : Nat) :
    Along Unmoved (whenOffload cfg (onOffload (PyM.modify (ChainOffload.poll n))) :
      RuntimeM ι φ δ μ κ Unit) := by
  unfold whenOffload
  cases cfg.capacityBytes with
  | none => exact along_pure ()
  | some _ =>
    intro s hs
    exact ⟨hs.index, hs.offload.poll 0 n, rfl⟩

variable {hooks : ChainManager μ κ} {cfg : ChainRuntimeConfig φ δ}

omit [LinearOrder ι] in
theorem sumOutstanding_bare (m : μ) (l : List (ChainRecord ι φ δ)) (slots : List Int) (rows : Int) :
    sumOutstanding hooks m (l.map bare) slots rows = sumOutstanding hooks m l slots rows := by
  induction l generalizing slots rows with
  | nil => rfl
  | cons r l ih =>
    have hsame : outstandingOf hooks m r.bare = outstandingOf hooks m r := rfl
    rw [map_cons, sumOutstanding, sumOutstanding, hsame]
    simp only [ih]

theorem Alike.activeChains (h : Alike s t) :
    (activeChains s.index).map bare = (activeChains t.index).map bare := by
  have hbare : ∀ index : ChainCacheIndex ι φ δ, (ChainRuntime.activeChains index).map bare =
      index.activeRecords.keys.filterMap (index.records.mapValues bare).get? := by
    intro index
    unfold ChainRuntime.activeChains
    rw [List.map_filterMap]
    refine List.filterMap_congr fun id _ => ?_
    rw [Dict.get?_mapValues]
  rw [hbare, hbare, h.index.activeRecords, h.index.records]

theorem Alike.outstanding (h : Alike s t) :
    outstandingActiveReservations hooks s = outstandingActiveReservations hooks t := by
  unfold outstandingActiveReservations
  rw [← sumOutstanding_bare, ← sumOutstanding_bare s.manager, h.activeChains, h.manager]
  rw [sumOutstanding_bare, sumOutstanding_bare]

theorem admissionRequirements_agree (h : Alike s t) (chainId : ι) (count : Nat)
    (decodeReserved : List Int) (p q : Nat) :
    Agree Alike Eq (admissionRequirements hooks cfg chainId count decodeReserved p)
      (admissionRequirements hooks cfg chainId count decodeReserved q) s t := by
  unfold admissionRequirements
  refine agree_seq (agree_whenOffload h (agree_poll h p q)) fun _ _ s₁ t₁ _ h₁ => ?_
  refine agree_get ?_
  dsimp only
  rw [h₁.outstanding]
  refine agree_seq (agree_lift SameOutcome.rfl h₁) fun outstanding _ s₂ t₂ hout h₂ => ?_
  subst hout
  refine agree_pure ?_ h₂
  rw [h₁.manager]
  rcases h₁.index.lookup chainId with ⟨hi, hj⟩ | ⟨r, r', hi, hj, hrr⟩
  · rw [hi, hj]
  · rw [hi, hj]
    dsimp only [Option.elim]
    rw [hrr.processedTokenCount, hrr.allocatedCapacity, hrr.residentRows]

theorem Alike.hasSnapshot (h : Alike s t) (chainId : ι) :
    hasSnapshot s chainId = hasSnapshot t chainId := by
  unfold ChainRuntime.hasSnapshot
  rcases h.index.lookup chainId with ⟨hi, hj⟩ | ⟨r, q, hi, hj, hrq⟩
  · rw [hi, hj]
    rfl
  · rw [hi, hj]
    dsimp only [Option.elim]
    rw [hrq.seqId, h.offload.contains]

theorem offloadPlan_agree (h : Alike s t) (plan : ChainAdmissionPlan ι) :
    Agree Alike Eq (offloadPlan cfg plan) (offloadPlan cfg plan) s t := by
  unfold offloadPlan
  cases cfg.capacityBytes with
  | none => exact agree_pure rfl h
  | some n =>
    have hcontains : ∀ id, s.index.records.contains id = false ↔ t.index.records.contains id = false :=
      fun id => by rw [h.index.contains]
    refine agree_get ?_
    refine agree_seq (agree_raiseIf _ _ (exists_congr fun id => and_congr_right fun _ => hcontains id)
      h) fun _ _ s₁ t₁ _ h₁ => agree_pure ?_ h₁
    have hsame : hasSnapshot s = hasSnapshot t := funext h.hasSnapshot
    rw [hsame]

theorem admissionRequirements_unmoved (chainId : ι) (count : Nat)
    (decodeReserved : List Int) (polled : Nat) :
    Along Unmoved (admissionRequirements hooks cfg chainId count decodeReserved polled :
      RuntimeM ι φ δ μ κ CapacityAnswer) := by
  unfold admissionRequirements
  refine along_bind (unmoved_poll cfg polled) fun _ => along_bind along_get fun s => ?_
  exact along_bind (along_lift _) fun _ => along_pure _

theorem replaceSnapshot_agree (h : Alike s t) (seqId : Nat) (state : κ) {snapshot : ChainSnapshot κ}
    (hc : snapshot.completion = true) :
    Agree Alike (fun _ _ => True)
      (do
        onOffload (ChainOffload.drop seqId)
        onManager (hooks.submitCopy seqId state)
        onOffload (PyM.modify (store seqId snapshot)))
      (do
        onOffload (ChainOffload.drop seqId)
        onManager (hooks.submitCopy seqId state)
        onOffload (PyM.modify (store seqId snapshot))) s t := by
  have hdrop : Agree (fun s t : ChainRuntime ι φ δ μ κ => Alike s t ∧
      s.offload.snapshots.get? seqId = none ∧ t.offload.snapshots.get? seqId = none)
      (fun _ _ => True) (onOffload (ChainOffload.drop seqId))
      (onOffload (ChainOffload.drop seqId)) s t :=
    agree_zoom (drop_agree h.offload seqId) fun _ _ ho =>
      ⟨⟨h.index, ho.1, h.manager⟩, ho.2⟩
  refine agree_bind hdrop ?_ fun _ _ hr => hr.1
  rintro - - s₁ t₁ - ⟨h₁, hnone⟩
  have hsubmit : Agree (fun s t : ChainRuntime ι φ δ μ κ => Alike s t ∧
      s.offload.snapshots.get? seqId = none ∧ t.offload.snapshots.get? seqId = none)
      Eq (onManager (hooks.submitCopy seqId state)) (onManager (hooks.submitCopy seqId state))
      s₁ t₁ := by
    refine agree_zoom (R := Eq) ?_ fun _ _ hmanager => ⟨⟨h₁.index, h₁.offload, hmanager⟩, hnone⟩
    rw [h₁.manager]
    exact ⟨SameOutcome.rfl, rfl⟩
  refine agree_bind hsubmit ?_ fun _ _ hr => hr.1
  rintro - - s₂ t₂ - ⟨h₂, hnone₂⟩
  exact agree_onOffload h₂ (agree_modify (h₂.offload.store hnone₂ hc))

theorem save_agree (h : Alike s t) (capacity seqId : Nat) (state : κ) (p q : Nat) :
    Agree Alike (fun _ _ => True) (save hooks capacity seqId state p)
      (save hooks capacity seqId state q) s t := by
  unfold save
  refine agree_get ?_
  refine agree_seq (agree_raiseIf _ _ (by rw [h.manager]) h) fun _ _ s₁ t₁ _ h₁ => ?_
  refine agree_seq (agree_poll h₁ p q) fun _ _ s₂ t₂ _ h₂ => ?_
  refine agree_seq (agree_query h₂ _) fun nbytes _ s₃ t₃ hbytes h₃ => ?_
  subst hbytes
  refine agree_get ?_
  refine agree_seq (agree_raiseIf _ _
    (by rw [h₃.offload.usedBytes, h₃.offload.snapshotBytes]) h₃) fun _ _ s₄ t₄ _ h₄ => ?_
  refine agree_seq (agree_query h₄ _) fun lengths _ s₅ t₅ hlengths h₅ => ?_
  subst hlengths
  exact replaceSnapshot_agree h₅ seqId state rfl

theorem restore_agree (h : Alike s t) (seqId : Nat) :
    Agree Alike (fun _ _ => True) (restore hooks seqId) (restore hooks seqId) s t := by
  unfold restore
  refine agree_get ?_
  refine agree_seq (agree_raiseIf _ _ (by rw [h.manager]) h) fun _ _ s₁ t₁ _ h₁ => ?_
  refine agree_seq (agree_wait h₁ seqId) fun snapshot _ s₂ t₂ hsnapshot h₂ => ?_
  subst hsnapshot
  refine agree_seq (agree_raiseIf _ _ Iff.rfl h₂) fun _ _ s₃ t₃ _ h₃ => ?_
  refine agree_seq (agree_raiseIf _ _ (by rw [h.manager]) h₃) fun _ _ s₄ t₄ _ h₄ => ?_
  refine agree_seq (agree_raiseIf _ _ Iff.rfl h₄) fun _ _ s₅ t₅ _ h₅ => ?_
  refine agree_seq (agree_onManager h₅ _) fun _ _ s₆ t₆ _ h₆ => ?_
  refine agree_tryExcept ((agree_onManager h₆ _).mono (fun _ _ _ => trivial) fun _ _ hr => hr) ?_
  intro e e' s₇ t₇ h₇
  exact agree_seq (agree_onManager h₇ _) fun _ _ _ _ _ h₈ => agree_raise e e' h₈

theorem agree_lookup (h : Alike s t) (chainId : ι) :
    Agree Alike ChainRecord.Alike (onIndex (ChainCacheIndex.lookup chainId))
      (onIndex (ChainCacheIndex.lookup chainId)) s t :=
  agree_onIndex h (lookup_agree h.index chainId)

theorem agree_writeRecord (h : Alike s t) {r q : ChainRecord ι φ δ} (hrq : r.Alike q) :
    Agree Alike (fun _ _ => True) (writeRecord r) (writeRecord q) s t :=
  agree_onIndex h (agree_modify (setRecord_alike h.index hrq))

theorem demoteVictim_agree (h : Alike s t) (chainId : ι) :
    Agree Alike (fun _ _ => True) (demoteVictim hooks chainId) (demoteVictim hooks chainId) s t := by
  unfold demoteVictim
  refine agree_seq (agree_lookup h chainId) fun r q s₁ t₁ hrq h₁ => ?_
  refine agree_seq (agree_raiseIf _ _ (by rw [hrq.state]) h₁) fun _ _ s₂ t₂ _ h₂ => ?_
  have hset : ChainRecord.Alike { r with residentRows := 0 } { q with residentRows := 0 } :=
    hrq.update (f := fun r => { r with residentRows := 0 }) fun _ => rfl
  rw [hrq.seqId] at hset ⊢
  refine agree_seq (agree_wait h₂ q.seqId) fun snapshot _ s₃ t₃ hsnapshot h₃ => ?_
  subst hsnapshot
  refine agree_seq (agree_raiseIf _ _ Iff.rfl h₃) fun _ _ s₄ t₄ _ h₄ => ?_
  refine agree_seq (agree_onManager h₄ _) fun _ _ s₅ t₅ _ h₅ => ?_
  exact agree_writeRecord h₅ hset

theorem dropVictim_agree (h : Alike s t) (chainId : ι) :
    Agree Alike (fun _ _ => True) (dropVictim chainId) (dropVictim chainId) s t := by
  unfold dropVictim
  refine agree_seq (agree_lookup h chainId) fun r q s₁ t₁ hrq h₁ => ?_
  rw [hrq.seqId]
  exact agree_drop h₁ q.seqId

theorem applyAdmission_agree (h : Alike s t) (plan : ChainAdmissionPlan ι) :
    Agree Alike ChainRecord.Alike (applyAdmission hooks cfg plan) (applyAdmission hooks cfg plan)
      s t := by
  unfold applyAdmission
  refine agree_seq (agree_whenOffload h ?_) fun _ _ s₁ t₁ _ h₁ => ?_
  · refine agree_seq (agree_forEach (fun id s t h => demoteVictim_agree h id) _ h)
      fun _ _ s₁ t₁ _ h₁ => ?_
    exact agree_forEach (fun id s t h => dropVictim_agree h id) _ h₁
  · exact agree_onIndex h₁ (ChainCacheIndex.applyAdmission_agree cfg.index h₁.index plan _)

theorem prepareResumedChain_agree (h : Alike s t) {r q : ChainRecord ι φ δ} (hrq : r.Alike q) :
    Agree Alike (fun _ _ => True) (prepareResumedChain hooks cfg r) (prepareResumedChain hooks cfg q)
      s t := by
  have hinvalidate : ∀ {s t : ChainRuntime ι φ δ μ κ}, Alike s t →
      Agree Alike (fun _ _ => True) (onOffload (ChainOffload.invalidate q.seqId))
        (onOffload (ChainOffload.invalidate q.seqId)) s t :=
    fun h => agree_onOffload h (ChainOffload.invalidate_agree h.offload q.seqId)
  have hset := hrq.update (f := fun r : ChainRecord ι φ δ => { r with
    residentRows := 1
    reservedSlotsByLayer := zipWith (· - ·) r.reservedSlotsByLayer r.physicalSlotsByLayer
    reservedRows := 0 }) fun _ => rfl
  unfold prepareResumedChain
  rw [hrq.seqId] at hset ⊢
  refine agree_whenOffload h (agree_ite (by rw [hrq.residentRows]) (fun _ => ?_) fun _ => hinvalidate h)
  refine agree_seq (restore_agree h q.seqId) fun _ _ s₁ t₁ _ h₁ => ?_
  exact agree_seq (agree_writeRecord h₁ hset) fun _ _ s₂ t₂ _ h₂ => hinvalidate h₂

theorem Alike.dropCandidates (h : Alike s t) (chainId : ι) :
    (dropCandidates s chainId).map bare =
      (dropCandidates t chainId).map bare := by
  have hsort : ∀ l : List (ChainRecord ι φ δ),
      (l.insertionSort dropLe).map bare = (l.map bare).insertionSort dropLe :=
    fun l => List.map_insertionSort _ _ _ _ fun _ _ _ _ => Iff.rfl
  have hfilter : ∀ l : List (ChainRecord ι φ δ),
      (l.filter fun r =>
        decide (r.chainId ≠ chainId) && t.offload.snapshots.contains r.seqId).map bare =
      (l.map bare).filter fun r =>
        decide (r.chainId ≠ chainId) && t.offload.snapshots.contains r.seqId := by
    intro l
    rw [filter_map]
    rfl
  unfold ChainRuntime.dropCandidates
  simp only [h.offload.contains]
  rw [hsort, hsort, hfilter, hfilter, h.index.values]

theorem makeRoom_agree (capacity oldBytes required : Nat) (l l' : List (ChainRecord ι φ δ))
    (hl : l.map bare = l'.map bare) {s t : ChainRuntime ι φ δ μ κ}
    (h : Alike s t) :
    Agree Alike (fun _ _ => True) (makeRoom cfg capacity oldBytes required l)
      (makeRoom cfg capacity oldBytes required l') s t := by
  induction l generalizing l' s t with
  | nil =>
    cases l' with
    | nil => exact agree_pure trivial h
    | cons q l' => cases hl
  | cons r l ih =>
    cases l' with
    | nil => cases hl
    | cons q l' =>
      rw [map_cons, map_cons, List.cons.injEq] at hl
      obtain ⟨hrq, hl⟩ := hl
      replace hrq : r.Alike q := hrq
      unfold makeRoom
      refine agree_get (agree_ite (by rw [h.offload.usedBytes]) (fun _ => ?_) fun _ =>
        agree_pure trivial h)
      rw [hrq.seqId]
      refine agree_seq (agree_drop h q.seqId) fun _ _ s₁ t₁ _ h₁ => ?_
      refine agree_ite (by rw [hrq.residentRows]) (fun _ => ?_) fun _ => ih l' hl h₁
      rw [hrq.chainId]
      exact agree_seq (agree_onIndex h₁ (evict_agree cfg.index h₁.index q.chainId))
        fun _ _ s₂ t₂ _ h₂ => ih l' hl h₂

theorem saveFinishedChain_agree (h : Alike s t) {r q : ChainRecord ι φ δ} (hrq : r.Alike q)
    (p p' : Nat) :
    Agree Alike (fun _ _ => True) (saveFinishedChain hooks cfg r p)
      (saveFinishedChain hooks cfg q p') s t := by
  unfold saveFinishedChain
  cases cfg.capacityBytes with
  | none => exact agree_pure trivial h
  | some capacity =>
    dsimp only
    rw [hrq.seqId, hrq.chainId]
    refine agree_seq (agree_onManager h _) fun state _ s₁ t₁ hstate h₁ => ?_
    subst hstate
    refine agree_seq (agree_query h₁ _) fun required _ s₂ t₂ hrequired h₂ => ?_
    subst hrequired
    refine agree_seq (agree_raiseIf _ _ Iff.rfl h₂) fun _ _ s₃ t₃ _ h₃ => ?_
    refine agree_get ?_
    rw [h₃.offload.snapshotBytes]
    refine agree_seq (makeRoom_agree capacity _ required _ _ (h₃.dropCandidates q.chainId) h₃)
      fun _ _ s₄ t₄ _ h₄ => ?_
    exact save_agree h₄ capacity q.seqId state p p'

theorem finishValues_agree (h : Alike s t) (chainId : ι) (seqId : Nat) (digest : δ)
    (processed : Nat) :
    Agree Alike ChainRecord.Alike (finishValues hooks cfg chainId seqId digest processed)
      (finishValues hooks cfg chainId seqId digest processed) s t := by
  unfold finishValues
  refine agree_seq (agree_lookup h chainId) fun r q s₁ t₁ hrq h₁ => ?_
  refine agree_seq (agree_raiseIf _ _ (by rw [hrq.seqId]) h₁) fun _ _ s₂ t₂ _ h₂ => ?_
  refine agree_seq (agree_query h₂ _) fun physical _ s₃ t₃ hphysical h₃ => ?_
  subst hphysical
  refine agree_seq (agree_query h₃ _) fun capacity _ s₄ t₄ hcapacity h₄ => ?_
  subst hcapacity
  exact agree_onIndex h₄ (finishDigest_agree cfg.index h₄.index chainId _)

theorem invalidate_agree (h : Alike s t) (chainId : ι) :
    Agree Alike ChainRecord.Alike (invalidate cfg chainId) (invalidate cfg chainId) s t := by
  unfold invalidate
  refine agree_seq (agree_whenOffload h (dropVictim_agree h chainId)) fun _ _ s₁ t₁ _ h₁ => ?_
  exact agree_onIndex h₁ (ChainCacheIndex.invalidate_agree cfg.index h₁.index chainId)

theorem abandonResumption_agree (h : Alike s t) (plan : ChainAdmissionPlan ι) (chainId : ι) :
    Agree Alike (fun _ _ => True) (abandonResumption plan chainId) (abandonResumption plan chainId)
      s t := by
  unfold abandonResumption
  refine agree_get ?_
  cases plan.status with
  | created => exact agree_pure trivial h
  | resumed =>
    rcases h.index.lookup chainId with ⟨hi, hj⟩ | ⟨r, q, hi, hj, hrq⟩
    · rw [hi, hj]
      exact agree_pure trivial h
    · rw [hi, hj]
      refine agree_onIndex h (setRecordState_agree h.index ?_ .idle)
      exact hrq.update (f := fun r => { r with reservedSlotsByLayer := [], reservedRows := 0 })
        fun _ => rfl

theorem victimSeqIds_agree (h : Alike s t) (chainIds : List ι) :
    Agree Alike Eq (victimSeqIds chainIds) (victimSeqIds chainIds) s t := by
  have hseq : ∀ id, (do
      let r ← (ChainCacheIndex.lookup id s.index).1
      return r.seqId : Except PyError Nat) = (do
      let r ← (ChainCacheIndex.lookup id t.index).1
      return r.seqId) := by
    intro id
    unfold ChainCacheIndex.lookup
    rw [bind_run, bind_run, get_run, get_run]
    dsimp only
    rcases h.index.lookup id with ⟨hi, hj⟩ | ⟨r, q, hi, hj, hrq⟩
    · rw [hi, hj, h.index.tombstones]
      dsimp only
      split <;> rfl
    · rw [hi, hj]
      exact congrArg Except.ok hrq.seqId
  unfold victimSeqIds
  refine agree_get (agree_lift ?_ h)
  rw [funext hseq]
  exact SameOutcome.rfl

theorem chainApplyAdmission_agree (h : Alike s t) (plan : ChainAdmissionPlan ι) :
    Agree Alike ChainRecord.Alike (chainApplyAdmission hooks cfg plan)
      (chainApplyAdmission hooks cfg plan) s t := by
  unfold chainApplyAdmission
  refine agree_seq (victimSeqIds_agree h plan.victimChainIds) fun victims _ s₁ t₁ hvictims h₁ => ?_
  subst hvictims
  refine agree_seq (applyAdmission_agree h₁ plan) fun r q s₂ t₂ hrq h₂ => ?_
  refine agree_seq (agree_forEach (fun id s t h => ?_) _ h₂) fun _ _ s₃ t₃ _ h₃ => ?_
  · exact agree_seq (agree_lookup h id) fun _ _ _ _ _ h' => agree_pure trivial h'
  · refine agree_seq (agree_onManager h₃ _) fun _ _ s₄ t₄ _ h₄ => ?_
    refine agree_seq (agree_tryExcept (prepareResumedChain_agree h₄ hrq) fun e e' s₅ t₅ h₅ => ?_)
      fun _ _ s₆ t₆ _ h₆ => agree_pure hrq h₆
    rw [hrq.chainId]
    exact agree_seq (abandonResumption_agree h₅ plan q.chainId) fun _ _ _ _ _ h₆ =>
      agree_raise e e' h₆

theorem finishTurn_agree (h : Alike s t) (chainId : ι) (seqId : Nat) (digest : δ) (processed : Nat) :
    Agree Alike ChainRecord.Alike (finishTurn hooks cfg chainId seqId digest processed)
      (finishTurn hooks cfg chainId seqId digest processed) s t := by
  unfold finishTurn
  refine agree_seq (agree_onManager h _) fun _ _ s₁ t₁ _ h₁ => ?_
  refine agree_seq (agree_onManager h₁ _) fun _ _ s₂ t₂ _ h₂ => ?_
  exact finishValues_agree h₂ chainId seqId digest processed

theorem chainFinish_agree (h : Alike s t) (chainId : ι) (seqId : Nat) (digest : δ) (processed : Nat)
    (p p' : Nat) :
    Agree Alike ChainRecord.Alike (chainFinish hooks cfg chainId seqId digest processed p)
      (chainFinish hooks cfg chainId seqId digest processed p') s t := by
  unfold chainFinish
  refine agree_seq (agree_lookup h chainId) fun r q s₁ t₁ hrq h₁ => ?_
  refine agree_seq (agree_raiseIf _ _ (by rw [hrq.seqId]) h₁) fun _ _ s₂ t₂ _ h₂ => ?_
  refine agree_seq (agree_raiseIf _ _ (by rw [hrq.state]) h₂) fun _ _ s₃ t₃ _ h₃ => ?_
  refine agree_tryExcept ?_ fun e e' s₄ t₄ h₄ => ?_
  · refine agree_seq (finishTurn_agree h₃ chainId seqId digest processed)
      fun r' q' s₄ t₄ hrq' h₄ => ?_
    exact agree_seq (saveFinishedChain_agree h₄ hrq' p p') fun _ _ _ _ _ h₅ => agree_pure hrq' h₅
  · refine agree_seq (invalidate_agree h₄ chainId) fun _ _ s₅ t₅ _ h₅ => ?_
    exact agree_seq (agree_onManager h₅ _) fun _ _ _ _ _ h₆ => agree_raise e e' h₆

theorem chainReclaimIdle_agree (h : Alike s t) (chainId : ι) (seqId : Nat) (demote : Bool) :
    Agree Alike (fun _ _ => True) (chainReclaimIdle hooks cfg chainId seqId demote)
      (chainReclaimIdle hooks cfg chainId seqId demote) s t := by
  unfold chainReclaimIdle
  refine agree_seq (agree_lookup h chainId) fun r q s₁ t₁ hrq h₁ => ?_
  refine agree_seq (agree_raiseIf _ _ (by rw [hrq.seqId]) h₁) fun _ _ s₂ t₂ _ h₂ => ?_
  refine agree_seq (agree_raiseIf _ _ (by rw [hrq.state]) h₂) fun _ _ s₃ t₃ _ h₃ => ?_
  refine agree_get ?_
  have hset : ChainRecord.Alike { r with residentRows := 0 } { q with residentRows := 0 } :=
    hrq.update (f := fun r => { r with residentRows := 0 }) fun _ => rfl
  rw [hrq.seqId] at hset ⊢
  refine agree_seq (agree_raiseIf _ _ (by rw [hrq.residentRows, h₃.manager]) h₃)
    fun _ _ s₄ t₄ _ h₄ => ?_
  refine agree_ite Iff.rfl (fun _ => ?_) fun _ => ?_
  · refine agree_seq (agree_raiseIf _ _ Iff.rfl h₄) fun _ _ s₅ t₅ _ h₅ => ?_
    refine agree_seq (agree_wait h₅ q.seqId) fun snapshot _ s₆ t₆ hsnapshot h₆ => ?_
    subst hsnapshot
    refine agree_seq (agree_raiseIf _ _ Iff.rfl h₆) fun _ _ s₇ t₇ _ h₇ => ?_
    exact agree_seq (agree_onManager h₇ _) fun _ _ s₈ t₈ _ h₈ => agree_writeRecord h₈ hset
  · refine agree_seq (agree_whenOffload h₄ (agree_drop h₄ q.seqId)) fun _ _ s₅ t₅ _ h₅ => ?_
    refine agree_seq (agree_onManager h₅ _) fun _ _ s₆ t₆ _ h₆ => ?_
    exact agree_seq (agree_onIndex h₆ (evict_agree cfg.index h₆.index chainId))
      fun _ _ _ _ _ h₇ => agree_pure trivial h₇

theorem chainInvalidate_agree (h : Alike s t) (chainId : ι) (expectedSeqId : Option Nat) :
    Agree Alike (fun _ _ => True) (chainInvalidate hooks cfg chainId expectedSeqId)
      (chainInvalidate hooks cfg chainId expectedSeqId) s t := by
  unfold chainInvalidate
  refine agree_seq (agree_lookup h chainId) fun r q s₁ t₁ hrq h₁ => ?_
  refine agree_seq (agree_raiseIf _ _ (by rw [hrq.seqId]) h₁) fun _ _ s₂ t₂ _ h₂ => ?_
  refine agree_seq (invalidate_agree h₂ chainId) fun r' q' s₃ t₃ hrq' h₃ => ?_
  rw [hrq'.seqId]
  exact (agree_onManager h₃ _).mono (fun _ _ _ => trivial) fun _ _ hr => hr

theorem reset_agree (h : Alike s t) :
    Agree Alike (fun _ _ => True) (reset cfg) (reset cfg) s t := by
  unfold reset
  refine agree_seq (agree_whenOffload h (agree_onOffload h (ChainOffload.reset_agree h.offload)))
    fun _ _ s₁ t₁ _ h₁ => ?_
  exact agree_onIndex h₁ (agree_modify (.refl named_empty))

variable [DecidableEq φ] [DecidableEq δ]

theorem planWith_agree (h : Alike s t) (chainId : ι) (seqId : Nat)
    {a b : PrefixInput δ} (hcount : a.inputTokenCount = b.inputTokenCount)
    (hdigest : ∀ r, s.index.records.get? chainId = some r →
      SameOutcome Eq (a.prefixDigest cfg.index r.processedTokenCount)
        (b.prefixDigest cfg.index r.processedTokenCount))
    (decodeReserved : List Int) (p q : Nat) :
    Agree Alike Eq (planWith hooks cfg chainId seqId a decodeReserved p)
      (planWith hooks cfg chainId seqId b decodeReserved q) s t := by
  unfold planWith
  rw [← hcount]
  refine agree_bind ((admissionRequirements_agree h chainId _ decodeReserved p q).along
    (admissionRequirements_unmoved chainId _ decodeReserved p)) ?_ fun _ _ hr => hr.1
  rintro answer - s₁ t₁ rfl ⟨h₁, hunmoved⟩
  refine agree_seq (agree_onIndex h₁ (planAdmission_agree h₁.index
    ⟨hcount, fun r hr => ?_, rfl⟩)) fun plan _ s₂ t₂ hplan h₂ => ?_
  · rcases (hunmoved (h.trans h.symm)).index.lookup chainId with ⟨-, hnone⟩ | ⟨r', q', hr', hq', hrq⟩
    · rw [hnone] at hr
      cases hr
    · rw [hq'] at hr
      cases hr
      rw [← hrq.processedTokenCount]
      exact hdigest r' hr'
  · subst hplan
    refine agree_seq (offloadPlan_agree h₂ plan) fun plan' _ s₃ t₃ hplan' h₃ => ?_
    subst hplan'
    exact agree_pure rfl h₃

/-- The chain calls that every rank executes. -/
inductive SharedOp (ι δ μ : Type)
  | apply (plan : ChainAdmissionPlan ι)
  | finish (chainId : ι) (seqId : Nat) (digest : δ) (processedTokenCount : Nat)
  | reclaimIdle (chainId : ι) (seqId : Nat) (demote : Bool)
  | invalidate (chainId : ι) (expectedSeqId : Option Nat)
  | step (f : μ → μ)
  | completePrompt (chainId : ι)
  | reset

/-- A shared call on a rank that sees `polled` events. -/
def SharedOp.run (hooks : ChainManager μ κ) (cfg : ChainRuntimeConfig φ δ) (polled : Nat) :
    SharedOp ι δ μ → RuntimeM ι φ δ μ κ Unit
  | .apply plan => do
    let _ ← chainApplyAdmission hooks cfg plan
  | .finish chainId seqId digest processed => do
    let _ ← chainFinish hooks cfg chainId seqId digest processed polled
  | .reclaimIdle chainId seqId demote => chainReclaimIdle hooks cfg chainId seqId demote
  | .invalidate chainId expectedSeqId => chainInvalidate hooks cfg chainId expectedSeqId
  | .step f => onManager (PyM.modify f)
  | .completePrompt chainId => ChainRuntime.completePrompt chainId
  | .reset => ChainRuntime.reset cfg

/-- The calls of one rank only: the plan of rank 0 and the token history it remembers, the plan
that another rank validates, polls and routing snapshots. -/
inductive LocalOp (ι δ : Type)
  | plan (chainId : ι) (seqId : Nat) (tokenIds : List Int) (polled : Nat)
  | validate (expected : ChainAdmissionPlan ι) (inputTokenCount : Nat) (inputPrefixDigest : δ)
      (polled : Nat)
  | remember (prepared : PreparedChainTokens ι δ)
  | poll (polled : Nat)
  | routingSnapshot

def LocalOp.run (hooks : ChainManager μ κ) (cfg : ChainRuntimeConfig φ δ) :
    LocalOp ι δ → RuntimeM ι φ δ μ κ Unit
  | .plan chainId seqId tokenIds polled => do
    let _ ← planAdmission hooks cfg chainId seqId tokenIds polled
  | .validate expected count digest polled => do
    let _ ← validateAdmissionPlan hooks cfg expected count digest polled
  | .remember prepared => do
    let _ ← onIndex (rememberPreparedTokens cfg.index prepared)
  | .poll polled => whenOffload cfg (onOffload (PyM.modify (ChainOffload.poll polled)))
  | .routingSnapshot => do
    let _ ← onIndex ChainCacheIndex.routingSnapshot

/-- Two ranks with the same shared calls, each with local calls between them. -/
inductive RankPair (hooks : ChainManager μ κ) (cfg : ChainRuntimeConfig φ δ) :
    ChainRuntime ι φ δ μ κ → ChainRuntime ι φ δ μ κ → Prop
  | start (m : μ) : RankPair hooks cfg { manager := m } { manager := m }
  | shared {s t : ChainRuntime ι φ δ μ κ} (op : SharedOp ι δ μ) (p q : Nat) :
      RankPair hooks cfg s t → RankPair hooks cfg (op.run hooks cfg p s).2 (op.run hooks cfg q t).2
  | left {s t : ChainRuntime ι φ δ μ κ} (op : LocalOp ι δ) :
      RankPair hooks cfg s t → RankPair hooks cfg (op.run hooks cfg s).2 t
  | right {s t : ChainRuntime ι φ δ μ κ} (op : LocalOp ι δ) :
      RankPair hooks cfg s t → RankPair hooks cfg s (op.run hooks cfg t).2

omit [DecidableEq φ] [DecidableEq δ] in
theorem SharedOp.agree (h : Alike s t) (op : SharedOp ι δ μ) (p q : Nat) :
    Agree Alike (fun _ _ => True) (op.run hooks cfg p) (op.run hooks cfg q) s t := by
  cases op with
  | apply plan =>
    exact agree_seq (chainApplyAdmission_agree h plan) fun _ _ _ _ _ h₁ => agree_pure trivial h₁
  | finish chainId seqId digest processed =>
    exact agree_seq (chainFinish_agree h chainId seqId digest processed p q)
      fun _ _ _ _ _ h₁ => agree_pure trivial h₁
  | reclaimIdle chainId seqId demote => exact chainReclaimIdle_agree h chainId seqId demote
  | invalidate chainId expectedSeqId => exact chainInvalidate_agree h chainId expectedSeqId
  | step f => exact (agree_onManager h _).mono (fun _ _ _ => trivial) fun _ _ hr => hr
  | completePrompt chainId =>
    refine agree_seq (agree_lookup h chainId) fun r q s₁ t₁ hrq h₁ => ?_
    exact agree_writeRecord h₁
      (hrq.update (f := fun r => { r with reservedSlotsByLayer := [], reservedRows := 0 }) fun _ => rfl)
  | reset => exact reset_agree h

theorem planWith_unmoved (chainId : ι) (seqId : Nat) (input : PrefixInput δ)
    (decodeReserved : List Int) (polled : Nat) :
    Along Unmoved (planWith hooks cfg chainId seqId input decodeReserved polled :
      RuntimeM ι φ δ μ κ (ChainAdmissionPlan ι)) := by
  unfold planWith
  refine along_bind (admissionRequirements_unmoved chainId _ decodeReserved polled) fun answer => ?_
  refine along_bind (unmoved_onIndex (planAdmission_unmoved cfg.index _))
    fun plan => along_bind ?_ fun _ => along_pure _
  unfold offloadPlan
  cases cfg.capacityBytes with
  | none => exact along_pure _
  | some n =>
    exact along_bind along_get fun s => along_bind (along_raiseIf _ _) fun _ => along_pure _

theorem LocalOp.unmoved (op : LocalOp ι δ) :
    Along Unmoved (op.run hooks cfg : RuntimeM ι φ δ μ κ Unit) := by
  cases op with
  | plan chainId seqId tokenIds polled =>
    refine along_bind ?_ fun _ => along_pure _
    unfold planAdmission
    exact along_bind along_get fun s => planWith_unmoved chainId seqId _ _ polled
  | validate expected count digest polled =>
    refine along_bind ?_ fun _ => along_pure _
    unfold validateAdmissionPlan planAdmissionDigest
    exact along_bind (planWith_unmoved _ _ _ _ polled) fun _ =>
      along_bind (along_raiseIf _ _) fun _ => along_pure _
  | remember prepared =>
    exact along_bind (unmoved_onIndex (ChainCacheIndex.rememberPreparedTokens_unmoved cfg.index _))
      fun _ => along_pure _
  | poll polled => exact unmoved_poll cfg polled
  | routingSnapshot =>
    exact along_bind (unmoved_onIndex ChainCacheIndex.routingSnapshot_unmoved) fun _ => along_pure _

theorem RankPair.alike (h : RankPair hooks cfg s t) : Alike s t := by
  induction h with
  | start m => exact ⟨.refl named_empty, ⟨ChainOffload.inv_empty, ChainOffload.inv_empty, rfl⟩, rfl⟩
  | shared op p q _ ih => exact (op.agree ih p q).2
  | @left s t op _ ih => exact (op.unmoved s (ih.trans ih.symm)).symm.trans ih
  | @right s t op _ ih => exact ih.trans (op.unmoved t (ih.symm.trans ih))

def IsPrefixDigest (cfg : ChainRuntimeConfig φ δ) (s : ChainRuntime ι φ δ μ κ) (chainId : ι)
    (tokenIds : List Int) (digest : δ) : Prop :=
  ∀ r, s.index.records.get? chainId = some r → tokenIds.length < r.processedTokenCount ∨
    stableTokenDigest cfg.index tokenIds r.processedTokenCount = .ok digest

omit [LinearOrder ι] [DecidableEq φ] [DecidableEq δ] in
theorem sameOutcome_prefixDigest {cfg : ChainIndexConfig δ} {tokenIds : List Int} {count : Nat}
    {digest : δ} (h : tokenIds.length < count ∨
      stableTokenDigest cfg tokenIds count = .ok digest) :
    SameOutcome Eq ((PrefixInput.tokens tokenIds).prefixDigest cfg count)
      ((PrefixInput.digest tokenIds.length digest).prefixDigest cfg count) := by
  unfold PrefixInput.prefixDigest
  dsimp only
  by_cases hshort : tokenIds.length < count
  · rw [if_pos hshort]
    unfold stableTokenDigest
    rw [if_pos hshort]
    split <;> trivial
  · rw [if_neg hshort, h.resolve_left hshort]
    exact rfl

theorem planWith_names (chainId : ι) (seqId : Nat) (input : PrefixInput δ)
    (decodeReserved : List Int) (polled : Nat) :
    wp (planWith hooks cfg chainId seqId input decodeReserved polled)
      (fun plan _ => plan.chainId = chainId ∧ plan.seqId = seqId ∧
        plan.decodeReservedSlotsByLayer = decodeReserved) (fun _ _ => True) s := by
  have hany : ∀ {α : Type} {m : RuntimeM ι φ δ μ κ α} {s}, wp m (fun _ _ => True) (fun _ _ => True) s :=
    keeps_iff.mpr trivial
  unfold planWith
  rw [wp_bind]
  refine wp_mono hany (fun answer s₁ _ => ?_) fun _ _ ht => ht
  have hindex : ∀ req : AdmissionRequest ι φ δ,
      wp (ChainCacheIndex.planAdmission cfg.index req)
        (fun plan _ => plan.chainId = req.chainId ∧ plan.seqId = req.seqId) (fun _ _ => True)
        s₁.index := by
    intro req
    unfold ChainCacheIndex.planAdmission
    rw [wp_bind]
    refine wp_mono (keeps_iff.mpr (trivial : (fun _ => True) _)) (fun status i _ => ?_)
      fun _ _ ht => ht
    rw [wp_bind, wp_get]
    dsimp only
    rw [wp_bind, wp_raiseIf]
    exact ⟨fun _ => trivial, fun _ => ⟨rfl, rfl⟩⟩
  rw [wp_bind, wp_onIndex]
  refine wp_mono (hindex _) ?_ fun _ _ ht => ht
  rintro plan i ⟨hid, hseq⟩
  have hoffload : ∀ s₂ : ChainRuntime ι φ δ μ κ, wp (offloadPlan cfg plan)
      (fun plan' _ => plan'.chainId = plan.chainId ∧ plan'.seqId = plan.seqId) (fun _ _ => True) s₂ := by
    intro s₂
    unfold offloadPlan
    cases cfg.capacityBytes with
    | none => exact ⟨rfl, rfl⟩
    | some n =>
      dsimp only
      rw [wp_bind, wp_get, wp_bind, wp_raiseIf]
      exact ⟨fun _ => trivial, fun _ => ⟨rfl, rfl⟩⟩
  rw [wp_bind]
  refine wp_mono (hoffload _) ?_ fun _ _ ht => ht
  rintro plan' s₂ ⟨hid', hseq'⟩
  exact ⟨hid'.trans hid, hseq'.trans hseq, rfl⟩

/-- Two ranks that executed the same chain calls, and saw the events of their copies at different times, plan alike. -/
theorem chain_ranks_agree (h : RankPair hooks cfg s t) :
    (∀ chainId seqId tokenIds digest p q, IsPrefixDigest cfg s chainId tokenIds digest →
      SameOutcome Eq (planAdmission hooks cfg chainId seqId tokenIds p s).1
        (planAdmissionDigest hooks cfg chainId seqId tokenIds.length digest
          (hooks.decodeReserved s.manager) q t).1) ∧
    (∀ chainId seqId tokenIds digest p q plan, IsPrefixDigest cfg s chainId tokenIds digest →
      (planAdmission hooks cfg chainId seqId tokenIds p s).1 = .ok plan →
      (validateAdmissionPlan hooks cfg plan tokenIds.length digest q t).1 = .ok plan) ∧
    (∀ chainId seqId digest processed r s₁,
      finishTurn hooks cfg chainId seqId digest processed s = (.ok r, s₁) →
      ∃ r' t₁, finishTurn hooks cfg chainId seqId digest processed t = (.ok r', t₁) ∧
        s₁.index.records.keys = t₁.index.records.keys ∧
        ∀ p q, SameOutcome Eq (saveFinishedChain hooks cfg r p s₁).1
            (saveFinishedChain hooks cfg r' q t₁).1 ∧
          (saveFinishedChain hooks cfg r p s₁).2.index.records.keys =
            (saveFinishedChain hooks cfg r' q t₁).2.index.records.keys ∧
          (saveFinishedChain hooks cfg r p s₁).2.offload.snapshots.keys =
            (saveFinishedChain hooks cfg r' q t₁).2.offload.snapshots.keys) := by
  have halike := h.alike
  have hplan : ∀ chainId seqId tokenIds digest p q, IsPrefixDigest cfg s chainId tokenIds digest →
      SameOutcome Eq (planAdmission hooks cfg chainId seqId tokenIds p s).1
        (planAdmissionDigest hooks cfg chainId seqId tokenIds.length digest
          (hooks.decodeReserved s.manager) q t).1 := by
    intro chainId seqId tokenIds digest p q hdigest
    have hagree : Agree Alike Eq
        (planWith hooks cfg chainId seqId (.tokens tokenIds) (hooks.decodeReserved s.manager) p)
        (planWith hooks cfg chainId seqId (.digest tokenIds.length digest)
          (hooks.decodeReserved s.manager) q) s t := by
      refine planWith_agree halike chainId seqId ?_ (fun r hr => ?_) _ p q
      · rfl
      · exact sameOutcome_prefixDigest (hdigest r hr)
    exact hagree.1
  refine ⟨hplan, ?_, ?_⟩
  · intro chainId seqId tokenIds digest p q plan hdigest hok
    have hsame := hplan chainId seqId tokenIds digest p q hdigest
    have hrun : planWith hooks cfg chainId seqId (.tokens tokenIds) (hooks.decodeReserved s.manager) p
        s = (.ok plan, (planAdmission hooks cfg chainId seqId tokenIds p s).2) := Prod.ext hok rfl
    obtain ⟨hid, hseq, hdecode⟩ := (wp_of_ok hrun).mp (planWith_names chainId seqId _ _ p)
    rw [hok] at hsame
    unfold validateAdmissionPlan
    rw [hid, hseq, hdecode]
    cases hlocal : planAdmissionDigest hooks cfg chainId seqId tokenIds.length digest
        (hooks.decodeReserved s.manager) q t with
    | mk result t₁ =>
      rw [hlocal] at hsame
      cases result with
      | error e => exact hsame.elim
      | ok plan' =>
        have heq : plan = plan' := hsame
        subst heq
        have hpass : raiseIf (plan ≠ plan) divergedPlan t₁ = (.ok (), t₁) := if_neg fun hne => hne rfl
        rw [bind_ok hlocal, bind_ok hpass]
        rfl
  · intro chainId seqId digest processed r s₁ hrun
    have hturn : Agree Alike ChainRecord.Alike (finishTurn hooks cfg chainId seqId digest processed)
        (finishTurn hooks cfg chainId seqId digest processed) s t :=
      finishTurn_agree halike chainId seqId digest processed
    rcases agree_iff.mp hturn with ⟨a, r', s', t₁, ha, hr', hrr, h₁⟩ | ⟨e, e', s', t', ha, -, -⟩
    · rw [hrun] at ha
      cases ha
      refine ⟨r', t₁, hr', h₁.index.keys, fun p q => ?_⟩
      have hsave : Agree Alike (fun _ _ => True) (saveFinishedChain hooks cfg r p)
          (saveFinishedChain hooks cfg r' q) s₁ t₁ := saveFinishedChain_agree h₁ hrr p q
      exact ⟨hsave.1.mono fun _ _ _ => rfl, hsave.2.index.keys, hsave.2.offload.keys⟩
    · rw [hrun] at ha
      cases ha

def demoNewPlan : ChainAdmissionPlan Nat :=
  { chainId := 7, seqId := 3, status := .created, reusedTokens := 0, inputTokenCount := 2
    reservedSlotsByLayer := [2] }

def demoTurn : DemoRuntime :=
  ((SharedOp.finish 7 3 3 2).run demoChainManager demoRuntimeConfig 0
    ((SharedOp.step (3 :: ·)).run demoChainManager demoRuntimeConfig 0
      ((SharedOp.apply demoNewPlan).run demoChainManager demoRuntimeConfig 0 { manager := [] }).2).2).2

def demoTurnSeen : DemoRuntime :=
  ((LocalOp.poll 1).run demoChainManager demoRuntimeConfig demoTurn).2

theorem demoTurn_pair : RankPair demoChainManager demoRuntimeConfig demoTurn demoTurnSeen :=
  .right _ (.shared _ 0 0 (.shared _ 0 0 (.shared _ 0 0 (.start []))))

/-- One rank has a copy with an event and the other has not; both resume chain 7 alike. -/
theorem chain_ranks_agree_demo :
    demoTurn.offload.pending.keys = [3] ∧ demoTurnSeen.offload.pending.keys = [] ∧
      (planAdmission demoChainManager demoRuntimeConfig 7 3 [1, 2, 5] 0 demoTurn).1.isOk = true ∧
      SameOutcome Eq (planAdmission demoChainManager demoRuntimeConfig 7 3 [1, 2, 5] 0 demoTurn).1
        (planAdmissionDigest demoChainManager demoRuntimeConfig 7 3 3 3
          (demoChainManager.decodeReserved demoTurn.manager) 0 demoTurnSeen).1 := by
  refine ⟨by decide +kernel, by decide +kernel, by decide +kernel,
    (chain_ranks_agree demoTurn_pair).1 7 3 [1, 2, 5] 3 0 0 fun r hr => .inr ?_⟩
  have hcounts : (demoTurn.index.records.get? 7).all
      (fun r => decide (r.processedTokenCount = 2)) = true := by decide +kernel
  rw [hr, Option.all_some, decide_eq_true_eq] at hcounts
  rw [hcounts]
  rfl

end ChainRuntime

end SparseEngine
